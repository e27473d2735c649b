import NxObject.BlzRoundtrip
import NxObject.Placement

/-!
# The size and the form of what the encoder emits

Both forms end on a multiple of four. Their last field tells them apart, and the packed one is emitted only
if it is shorter than the input.
-/
namespace NxObject.Blz
open Outcome Lz

variable {ε : Type} {data : Bytes}

/-- A back-reference that the encoding has room for: its two bytes are computed without a bit being cut off. -/
structure Narrow (len offset : ℕ) : Prop where
  min_le_len : minMatch ≤ len
  len_le : len ≤ 18
  three_le_offset : 3 ≤ offset
  offset_le : offset ≤ 0x1002
  first : ((len - minMatch) <<< 4 ||| (offset - 3) >>> 8) < 256
  second : (offset - 3) &&& 0xFF < 256

lemma narrow_of_isMatch {pos len offset : ℕ} (h : IsMatch data pos len offset) : Narrow len offset := by
  have hlen : len ≤ 18 := h.len_le_max
  have hoffset : offset ≤ 0x1002 := h.offset_le_max
  have hdistance : (offset - 3) >>> 8 < 2 ^ 4 := by
    rw [Nat.shiftRight_eq_div_pow]
    omega
  have hfirst : (len - minMatch) <<< 4 < 2 ^ 8 := by
    rw [Nat.shiftLeft_eq, show minMatch = 3 from rfl]
    omega
  exact ⟨h.min_le_len, hlen, h.min_le_offset, hoffset,
    Nat.or_lt_two_pow hfirst (hdistance.trans (by decide)), Nat.and_lt_two_pow _ (by decide : 0xFF < 2 ^ 8)⟩

lemma longestMatch_narrow (h : data.length < NONE.toNat) :
    ∃ finder, (MatchFinder.new data.reverse : Outcome ε _) = ok finder ∧ ∀ pos, ∃ len offset,
      (finder.longestMatch pos : Outcome ε _) = ok (len, offset) ∧
        (matchThreshold < len → Narrow len offset) := by
  obtain ⟨finder, hnew, -, hlinked⟩ :=
    new_spec (ε := ε) (show data.reverse.length < NONE.toNat by rwa [List.length_reverse])
  refine ⟨finder, hnew, fun pos => ?_⟩
  obtain ⟨len, offset, hfind, hfound⟩ := longestMatch_spec (ε := ε) hlinked pos
  refine ⟨len, offset, hfind, fun hlen => ?_⟩
  rcases hfound with ⟨rfl, -⟩ | hmatch
  · exact absurd hlen (lt_irrefl _)
  · exact narrow_of_isMatch hmatch

lemma add_padding (n : ℕ) : n + padding n = Placement.alignUp 4 n := by
  rw [padding, Placement.alignUp]
  omega

lemma storedStream_length (data : Bytes) :
    (storedStream data).length = Placement.alignUp 4 data.length + 4 := by
  rw [← add_padding]
  simp only [storedStream, List.length_append, List.length_replicate, toLe_length]

lemma Packing.dvd_length (p : Packing data) : 4 ∣ p.stream.length := by
  rw [p.stream_length, headerSize, packedHeaderSize_eq, footerSize, Nat.add_comm 12, ← Nat.add_assoc,
    add_padding]
  exact (Placement.dvd_alignUp 4 _).add (by decide)

lemma Packing.length_lt (p : Packing data) : p.stream.length < data.length := by
  obtain ⟨hlen, hextra⟩ := p.footer_extraLen
  rw [p.stream_length]
  omega

lemma Packing.trailingU32_stream (p : Packing data) (h : data.length < 2 ^ 32) :
    trailingU32 p.stream 4 = some p.footer.extraLen := by
  have hread := p.readFooter_stream h
  obtain ⟨extraLen, hextra, hread⟩ := Option.bind_eq_some_iff.mp hread
  obtain ⟨headerSize, -, hread⟩ := Option.bind_eq_some_iff.mp hread
  obtain ⟨encLen, -, hread⟩ := Option.bind_eq_some_iff.mp hread
  rw [hextra]
  congr 1
  exact congrArg Footer.extraLen (Option.some.inj hread)

lemma Emitted.form {stream : Bytes} (he : Emitted data stream) (h : data.length < 2 ^ 32) :
    4 ∣ stream.length ∧ stream.length ≤ Placement.alignUp 4 data.length + 4 ∧
      ((trailingU32 stream 4 = some 0 ∧ stream = storedStream data) ∨
        (∃ extraLen, trailingU32 stream 4 = some extraLen ∧ extraLen ≠ 0) ∧
          (∃ p : Packing data, stream = p.stream) ∧ stream.length < data.length) := by
  rcases he with rfl | ⟨p, rfl⟩
  · rw [storedStream_length]
    exact ⟨(Placement.dvd_alignUp 4 _).add (by decide), le_rfl,
      Or.inl ⟨trailingU32_storedStream data, rfl⟩⟩
  · have hlt := p.length_lt
    have hle : data.length ≤ Placement.alignUp 4 data.length := Placement.le_alignUp (by decide) _
    exact ⟨p.dvd_length, by omega,
      Or.inr ⟨⟨_, p.trailingU32_stream h, p.footer_extraLen.2⟩, ⟨p, rfl⟩, hlt⟩⟩

/-- Below its size limit the encoder writes inside its buffer and cuts off no bit; it emits a multiple of
four bytes, whose last field is zero exactly in the stored form. -/
theorem compress_bounded (h : data.length < NONE.toNat) :
    (∃ finder, (MatchFinder.new data.reverse : Outcome ε _) = ok finder ∧ ∀ pos, ∃ len offset,
      (finder.longestMatch pos : Outcome ε _) = ok (len, offset) ∧
        (matchThreshold < len → Narrow len offset)) ∧
    ∃ stream, (compress data : Outcome ε Bytes) = ok stream ∧
      4 ∣ stream.length ∧ stream.length ≤ Placement.alignUp 4 data.length + 4 ∧
      ((trailingU32 stream 4 = some 0 ∧ stream = storedStream data) ∨
        (∃ extraLen, trailingU32 stream 4 = some extraLen ∧ extraLen ≠ 0) ∧
          (∃ p : Packing data, stream = p.stream) ∧ stream.length < data.length) := by
  obtain ⟨stream, hcompress, hemitted⟩ := compress_spec (ε := ε) h
  exact ⟨longestMatch_narrow h, stream, hcompress, hemitted.form (h.trans NONE.toNat_lt)⟩

theorem compress_bounded_samples :
    ((compress recurring : Outcome DecompressError Bytes) = ok recurringStream ∧ 4 ∣ recurringStream.length ∧
      trailingU32 recurringStream 4 ≠ some 0 ∧ (∃ p : Packing recurring, recurringStream = p.stream) ∧
      recurringStream.length < recurring.length) ∧
    (compress [1, 2, 3] : Outcome DecompressError Bytes) = ok [1, 2, 3, 0, 0, 0, 0, 0] ∧
      [1, 2, 3, 0, 0, 0, 0, 0] = storedStream [1, 2, 3] ∧ ∃ finder,
        (MatchFinder.new [3, 2, 1] : Outcome DecompressError _) = ok finder ∧ ∀ pos, ∃ len offset,
          (finder.longestMatch pos : Outcome DecompressError _) = ok (len, offset) ∧
            (matchThreshold < len → Narrow len offset) := by
  constructor
  · obtain ⟨-, stream, hcompress, hdvd, -, hform⟩ := compress_bounded (ε := DecompressError)
      (show recurring.length < NONE.toNat by decide)
    obtain rfl := ok.inj (compress_recurring.symm.trans hcompress)
    have hmarker : trailingU32 recurringStream 4 = some 30 := by decide
    rcases hform with ⟨hzero, -⟩ | ⟨-, hpacked, hlt⟩
    · exact absurd (hmarker.symm.trans hzero) (by decide)
    · exact ⟨hcompress, hdvd, by rw [hmarker]; decide, hpacked, hlt⟩
  · obtain ⟨⟨finder, hnew, hfind⟩, stream, hcompress, -, -, hform⟩ := compress_bounded (ε := DecompressError)
      (show ([1, 2, 3] : Bytes).length < NONE.toNat by decide)
    have hstored : (compress [1, 2, 3] : Outcome DecompressError Bytes) = ok [1, 2, 3, 0, 0, 0, 0, 0] := by
      decide +kernel
    obtain rfl := ok.inj (hstored.symm.trans hcompress)
    rcases hform with ⟨-, hform⟩ | ⟨⟨extraLen, hzero, hne⟩, -⟩
    · exact ⟨hstored, hform, finder, hnew, hfind⟩
    · have hmarker : trailingU32 [1, 2, 3, 0, 0, 0, 0, 0] 4 = some 0 := by decide
      exact absurd (Option.some.inj (hmarker.symm.trans hzero)).symm hne

end NxObject.Blz
