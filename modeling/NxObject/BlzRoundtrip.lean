import NxObject.BlzInPlace
import NxObject.BlzPacking

/-!
# Decoding what the encoder emits

The trailer of a packed stream places the region where the encoder put it. That the encoder keeps the
cheapest code boundary is what keeps the decoder's output cursor at or above its read cursor: every
boundary before the kept one would have cost at least as much.
-/
namespace NxObject.Blz
open Outcome Lz

lemma trailingU32_append (a b : Bytes) {n : ℕ} (hn : n < 2 ^ 32) (back : ℕ)
    (hb : back = 4 + b.length) : trailingU32 (a ++ (toLe 4 n ++ b)) back = some n := by
  have hlen : (a ++ (toLe 4 n ++ b)).length = a.length + back := by simp [hb]
  have hstart : checkedSub (a ++ (toLe 4 n ++ b)).length back = some a.length := by
    rw [hlen, checkedSub, if_pos (Nat.le_add_left _ _), Nat.add_sub_cancel]
  have hslice : sliceAt (a ++ (toLe 4 n ++ b)) a.length 4 = toLe 4 n :=
    sliceAt_eq_of_append rfl rfl (toLe_length 4 n)
  simp only [trailingU32, hstart, Option.bind_eq_bind, Option.bind_some,
    if_pos (show a.length + 4 ≤ (a ++ (toLe 4 n ++ b)).length by omega), hslice,
    ofLe_toLe_of_lt (show n < 256 ^ 4 by omega)]
  rfl

lemma trailingU32_storedStream (data : Bytes) : trailingU32 (storedStream data) 4 = some 0 := by
  have h := trailingU32_append (data ++ List.replicate (padding data.length) 0) []
    (show 0 < 2 ^ 32 by norm_num) 4 rfl
  rwa [List.append_nil] at h

lemma decompress_storedStream (data : Bytes) :
    decompress (storedStream data) data.length = ok data := by
  have hlen : (storedStream data).length = data.length + padding data.length + 4 := by
    simp only [storedStream, List.length_append, List.length_replicate, toLe_length]
  have hslice : (slice (storedStream data) 0 ((storedStream data).length - 4) :
      Outcome DecompressError Bytes) = ok (data ++ List.replicate (padding data.length) 0) := by
    have hbody : (storedStream data).length - 4 =
        (data ++ List.replicate (padding data.length) 0).length := by
      rw [hlen, List.length_append, List.length_replicate]
      omega
    rw [slice_of_le (Nat.zero_le _) (Nat.sub_le _ _), hbody, storedStream, List.take_left]
    rfl
  simp only [decompress, trailingU32_storedStream, okOr_some, ok_bind, if_pos, hslice,
    sub_of_le (show 4 ≤ (storedStream data).length by omega), pure_eq]
  simp

namespace Packing
variable {data : Bytes} (p : Packing data)

lemma remaining_add : p.remaining + produced (p.codes.take p.split) = data.length := by
  have h := produced_take_le p.expands p.split
  rw [List.length_reverse] at h
  rw [remaining]
  omega

lemma footer_extraLen : p.remaining + p.packed.length + p.headerSize + p.footer.extraLen =
    data.length ∧ p.footer.extraLen ≠ 0 := by
  have hsaves := p.saves
  rw [← p.cost_eq] at hsaves
  change _ + p.headerSize < _ at hsaves
  simp only [footer]
  omega

lemma stream_take : p.stream.take p.remaining = data.take p.remaining := by
  rw [stream, List.append_assoc, List.append_assoc, List.take_left' p.take_length]

lemma readFooter_stream (h : data.length < 2 ^ 32) : readFooter p.stream = some p.footer := by
  obtain ⟨hlen, _⟩ := p.footer_extraLen
  have henc : p.footer.encLen < 2 ^ 32 := by
    change p.packed.length + p.headerSize < _
    omega
  have hheader : p.footer.headerSize < 2 ^ 32 := by
    change p.headerSize < _
    omega
  have hextra : p.footer.extraLen < 2 ^ 32 := by omega
  set body := data.take p.remaining ++ p.packed.reverse ++
    List.replicate (padding (p.remaining + p.packed.length)) 0xFF with hbody
  have h₁ := trailingU32_append body (toLe 4 p.footer.headerSize ++ toLe 4 p.footer.extraLen) henc
    footerSize (by simp [footerSize])
  have h₂ := trailingU32_append (body ++ toLe 4 p.footer.encLen) (toLe 4 p.footer.extraLen) hheader
    8 (by simp)
  have h₃ := trailingU32_append (body ++ toLe 4 p.footer.encLen ++ toLe 4 p.footer.headerSize) []
    hextra 4 rfl
  have hstream : p.stream = body ++
      (toLe 4 p.footer.encLen ++ toLe 4 p.footer.headerSize ++ toLe 4 p.footer.extraLen) := rfl
  simp only [List.append_assoc, List.append_nil] at h₁ h₂ h₃ hstream
  simp only [readFooter, hstream, h₁, h₂, h₃, Option.bind_eq_bind, Option.bind_some]
  rfl

lemma fits (h : data.length < 2 ^ 32) : p.footer.Fits p.stream := by
  obtain ⟨hlen, _⟩ := p.footer_extraLen
  have hl := p.stream_length
  have hheader : footerSize ≤ p.headerSize := by
    rw [headerSize, packedHeaderSize_eq]
    exact Nat.le_add_right _ _
  exact ⟨hheader, Nat.le_add_left _ _, by
    change p.packed.length + p.headerSize ≤ _
    omega, by omega⟩

variable (h : data.length < 2 ^ 32)

def layout : Layout := p.footer.layout p.stream (p.fits h)

lemma layout_packedStart : (p.layout h).packedStart = p.remaining := by
  change p.stream.length - (p.packed.length + p.headerSize) = _
  rw [p.stream_length]
  omega

lemma layout_regionEnd : (p.layout h).regionEnd = p.remaining + p.packed.length := by
  change p.stream.length - p.headerSize = _
  rw [p.stream_length]
  omega

lemma layout_finalLen : (p.layout h).finalLen = data.length := by
  change p.stream.length + p.footer.extraLen = _
  rw [p.stream_length]
  exact p.footer_extraLen.1

lemma layout_region : (p.layout h).region = p.packed := by
  have hraw : (data.take p.remaining).length = p.remaining := by
    have := p.remaining_add
    rw [List.length_take]
    omega
  have hend : p.remaining + p.packed.length = (data.take p.remaining ++ p.packed.reverse).length := by
    rw [List.length_append, hraw, List.length_reverse]
  have hdata : (p.layout h).data = data.take p.remaining ++ p.packed.reverse ++
      (List.replicate (padding (p.remaining + p.packed.length)) 0xFF ++ p.footer.asBytes) := by
    change p.stream = _
    rw [stream, List.append_assoc]
  rw [Layout.region, layout_packedStart, layout_regionEnd, hdata, hend, List.take_left]
  rw [List.drop_append_of_le_length hraw.ge]
  simp

lemma parse_region : parse 0 0 (p.layout h).region = (p.codes.take p.split, true) := by
  rw [layout_region, packed]
  exact parse_pack_take p.codes p.encodable p.split p.split_le 0

lemma layout_codes : (p.layout h).codes = p.codes.take p.split := by
  rw [Layout.codes, p.parse_region]

lemma layout_complete : (p.layout h).complete = true := by
  rw [Layout.complete, p.parse_region]

lemma layout_expands : expand [] (p.layout h).codes = some (data.drop p.remaining).reverse := by
  rw [layout_codes, expand_take p.expands, List.reverse_drop]
  congr 2
  have := p.remaining_add
  omega

/-- No earlier boundary is cheaper, so none lets the output run into the unread bytes. -/
lemma layout_pace (i : ℕ) (hi : i ≤ (p.layout h).codes.length) :
    (p.layout h).regionEnd + produced ((p.layout h).codes.take i) ≤
      (p.layout h).finalLen + packedSize ((p.layout h).codes.take i) := by
  have hsplit := p.split_le
  rw [layout_codes, List.length_take] at hi
  have hcheap := p.cheapest i (by omega)
  rw [← p.cost_eq, splitCost] at hcheap
  have hle := produced_take_le p.expands i
  rw [List.length_reverse] at hle
  rw [layout_regionEnd, layout_finalLen, layout_codes, List.take_take,
    Nat.min_eq_left (show i ≤ p.split by omega)]
  omega

lemma pace : (p.layout h).Pace := fun i hi _ _ _ => p.layout_pace h i hi

/-- The run over an emitted stream gives back the data, and both cursors end at the raw prefix. -/
theorem decodeLoop_spec :
    ∃ s, decodeLoop (p.layout h).packedStart (p.layout h).regionEnd (p.layout h).start = ok s ∧
      s.cmp = p.remaining ∧ s.dst = p.remaining ∧ s.out = data := by
  have hexp := p.layout_expands h
  have hfinal := p.layout_finalLen h
  obtain ⟨s, hs⟩ := Layout.decodeLoop_ok (p.pace h) (p.layout_complete h) hexp
    (by rw [hfinal, List.length_reverse, List.length_drop]; omega)
  obtain ⟨_, hcmp, hlen, hraw, prod, hprod, hw⟩ := Layout.eq_of_decodeLoop (p.pace h) hs
  obtain rfl : (data.drop p.remaining).reverse = prod := Option.some.inj (hexp.symm.trans hprod)
  have hrem := p.remaining_add
  have hdst : s.dst = p.remaining := by
    have hl := hw.length
    rw [hlen, hfinal, List.length_reverse, List.length_drop] at hl
    omega
  refine ⟨s, hs, by rw [hcmp, layout_packedStart], hdst, ?_⟩
  rw [layout_packedStart, hdst, Nat.min_self] at hraw
  have hsuffix := hw.suffix
  rw [hdst, List.reverse_reverse] at hsuffix
  have hprefix : (p.layout h).data.take p.remaining = data.take p.remaining := p.stream_take
  rw [← List.take_append_drop p.remaining s.out, hraw, hprefix, hsuffix, List.take_append_drop]

include h in
lemma decompress_stream : decompress p.stream data.length = ok data := by
  obtain ⟨s, hs, _, _, hout⟩ := p.decodeLoop_spec h
  rw [decompress_packed (p.readFooter_stream h) p.footer_extraLen.2 (p.fits h)]
  change (decodeLoop (p.layout h).packedStart (p.layout h).regionEnd (p.layout h).start >>= _) = _
  rw [hs, ok_bind, hout, if_neg (not_not.mpr rfl)]

end Packing

theorem Emitted.decompress {data stream : Bytes} (he : Emitted data stream)
    (h : data.length < 2 ^ 32) : decompress stream data.length = ok data := by
  rcases he with rfl | ⟨p, rfl⟩
  · exact decompress_storedStream data
  · exact p.decompress_stream h

theorem Emitted.length_le {data stream : Bytes} (he : Emitted data stream) :
    stream.length ≤ data.length + 7 := by
  rcases he with rfl | ⟨p, rfl⟩
  · have hpad : padding data.length ≤ 3 := by rw [padding]; omega
    simp only [storedStream, List.length_append, List.length_replicate, toLe_length]
    omega
  · have hl := p.stream_length
    obtain ⟨hf, _⟩ := p.footer_extraLen
    omega

/-- Compressing and then decompressing to the original length gives back the data. -/
theorem decompress_compress {data : Bytes} (h : data.length < 2 ^ 32 - 1) :
    (compress data >>= fun stream => decompress stream data.length) = ok data := by
  obtain ⟨stream, hc, he⟩ := compress_spec (ε := DecompressError) h
  rw [hc, ok_bind, he.decompress (by omega)]

def recurring : Bytes :=
  (List.range 20).map UInt8.ofNat ++ (List.replicate 12 [1, 2, 3, 4, 9]).flatten ++ [77, 78]

def recurringStream : Bytes :=
  [0, 1, 2, 3, 4, 5, 6, 7, 8, 9, 10, 11, 12, 13, 14, 15, 16, 17, 18, 19, 2, 16, 17, 240, 17, 240, 7, 112, 240, 2,
    32, 1, 2, 3, 4, 9, 77, 78, 1, 255, 32, 0, 0, 0, 13, 0, 0, 0, 30, 0, 0, 0]

lemma compress_recurring : (compress recurring : Outcome DecompressError Bytes) = ok recurringStream := by
  decide +kernel

theorem decompress_compress_recurring : trailingU32 recurringStream 4 = some 30 ∧
    decompress recurringStream recurring.length = ok recurring := by
  have hround := decompress_compress (show recurring.length < 2 ^ 32 - 1 by decide)
  rw [compress_recurring, ok_bind] at hround
  exact ⟨by decide, hround⟩

/-- What holds of the buffer at a code boundary. -/
structure SafeAt (l : Layout) (flags : UInt8) (left : ℕ) (s : Cursor) : Prop where
  cmp_le_dst : s.cmp ≤ s.dst
  unread : ∀ i < s.cmp, s.out[i]? = l.data[i]?
  /-- A back-reference that is read here copies bytes already produced, and has room. -/
  sources : ∀ first second, 0 < left → l.packedStart < s.cmp → flags &&& flagMaskInit ≠ 0 →
    s.out[s.cmp - 1]? = some first → s.out[s.cmp - 2]? = some second →
    refLength first ≤ s.dst ∧ ∀ j < refLength first,
      s.dst - j ≤ s.dst - (j + 1) + refDistance first second ∧
      s.dst - (j + 1) + refDistance first second < l.finalLen

namespace Packing
variable {data : Bytes} (p : Packing data) (h : data.length < 2 ^ 32)

lemma safeAt_of_reaches {flags : UInt8} {left : ℕ} {s : Cursor}
    (hr : Reaches (p.layout h).packedStart (p.layout h).start flags left s) :
    SafeAt (p.layout h) flags left s := by
  obtain ⟨i, prod, rest, hm⟩ := Layout.mirrors_of_reaches (p.pace h) hr
  have hle := hm.cmp_le_dst_of_le (p.layout_pace h i hm.index_le)
  refine ⟨hle, fun j hj => ?_, fun first second hleft hgo hset hfirst hsecond => ?_⟩
  · have hunread := hm.unread
    rw [Nat.min_eq_left hle] at hunread
    rw [← List.getElem?_take_of_lt hj, hunread, List.getElem?_take_of_lt hj]
  · obtain ⟨left, rfl⟩ : ∃ n, left = n + 1 := ⟨left - 1, by omega⟩
    obtain ⟨cs, hdrop⟩ := hm.next_backRef hgo hle hset (p.layout_complete h) hfirst hsecond
    have htake := expand_take (p.layout_expands h) (i + 1)
    obtain ⟨prod', happly, hlen⟩ := hm.apply_of_expands hdrop (by rw [htake]; rfl)
    have hle' := (expand_length htake).symm.trans_le (List.length_take_le' _ _)
    have hw := hm.written.length
    have hl := hm.length
    have hlen' := apply_length happly
    have hlong : 0 < refLength first := Nat.succ_pos _
    have hback := copyBack_le hlong happly
    have hpos : 1 ≤ refDistance first second := Nat.le_add_left 1 _
    have hfinal := p.layout_finalLen h
    rw [List.length_nil, Nat.zero_add, ← hlen, List.length_reverse, List.length_drop] at hle'
    change prod'.length = prod.length + refLength first at hlen'
    exact ⟨by omega, fun j hj => by omega⟩

end Packing

/-- The run over `stream` is safe at every code boundary, gives back `data`, and ends with both
cursors at the end of the raw prefix. -/
def DecodesInPlace (data stream : Bytes) : Prop :=
  ∃ footer, readFooter stream = some footer ∧ ∃ hfits : footer.Fits stream,
    let l := footer.layout stream hfits
    (∀ flags left s, Reaches l.packedStart l.start flags left s → SafeAt l flags left s) ∧
    ∃ s, decodeLoop l.packedStart l.regionEnd l.start = ok s ∧
      decompress stream data.length = ok s.out ∧ s.out = data ∧
      s.cmp = l.packedStart ∧ s.dst = l.packedStart ∧
      stream.take l.packedStart = data.take l.packedStart

/-- Decoding a stream the encoder packed never overwrites a packed byte it has still to read and
copies only bytes it has produced. -/
theorem decompress_inPlace_safe {data stream : Bytes} (h : data.length < 2 ^ 32 - 1)
    (hc : (compress data : Outcome DecompressError Bytes) = ok stream)
    (hpacked : trailingU32 stream 4 ≠ some 0) : DecodesInPlace data stream := by
  obtain ⟨stream', hc', hform⟩ := compress_spec (ε := DecompressError)
    (show data.length < NONE.toNat from h)
  obtain rfl : stream = stream' := by
    rw [hc] at hc'
    injection hc'
  rcases hform with rfl | ⟨p, rfl⟩
  · exact absurd (trailingU32_storedStream data) hpacked
  have h32 : data.length < 2 ^ 32 := by omega
  have hstart := p.layout_packedStart h32
  obtain ⟨s, hs, hcmp, hdst, hout⟩ := p.decodeLoop_spec h32
  refine ⟨p.footer, p.readFooter_stream h32, p.fits h32,
    fun flags left s hr => p.safeAt_of_reaches h32 hr, s, hs, ?_, hout, ?_, ?_, ?_⟩
  · rw [p.decompress_stream h32, hout]
  · exact hcmp.trans hstart.symm
  · exact hdst.trans hstart.symm
  · change p.stream.take (p.layout h32).packedStart = data.take (p.layout h32).packedStart
    rw [hstart, p.stream_take]

def runStream : Bytes :=
  [15, 240, 9, 144, 3, 48, 0, 0, 7, 7, 7, 30, 24, 0, 0, 0, 12, 0, 0, 0, 18, 0, 0, 0]

theorem decompress_inPlace_safe_run : DecodesInPlace (List.replicate 42 7) runStream :=
  decompress_inPlace_safe (by decide) (by decide +kernel) (by decide)

end NxObject.Blz
