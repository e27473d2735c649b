import NxObject.BlzBounds

/-!
# The encoder emits the shortest of its layouts

While it emits codes, the encoder keeps the split that costs least. What it lays out in the end is therefore no
longer than the stored form, nor than any layout that splits the emitted codes elsewhere, and it falls back to
the stored form only if no split saves more than the trailer takes.
-/
namespace NxObject.Blz
open Outcome Lz Placement

variable {ε : Type} {data : Bytes} {codes : List (Code UInt8)}

/-- The codes that the loop emits, from its first turn to the end of the input. -/
def Emits (ε : Type) (data : Bytes) (codes : List (Code UInt8)) : Prop :=
  ∃ finder s, (MatchFinder.new data.reverse : Outcome ε _) = ok finder ∧
    (encodeLoop finder data.reverse data.length
      ⟨List.replicate (worstCaseLen data.length) 0, 0, 0, 0, 0, 0, data.length⟩ : Outcome ε _) = ok s ∧
    s.readPos = data.length ∧ Grouped s codes

/-- The stream that keeps the first `split` codes packed. -/
def splitStream (data : Bytes) (codes : List (Code UInt8)) (split : ℕ) : Bytes :=
  let packed := (pack codes).take (packedSize (codes.take split))
  let remaining := data.length - produced (codes.take split)
  let headerSize := packedHeaderSize (remaining + packed.length)
  let footer : Footer := ⟨packed.length + headerSize, headerSize, data.length - packed.length - remaining - headerSize⟩
  data.take remaining ++ packed.reverse ++ List.replicate (padding (remaining + packed.length)) 0xFF ++ footer.asBytes

def layoutSize (data : Bytes) (codes : List (Code UInt8)) (split : ℕ) : ℕ :=
  splitCost data.length codes split + packedHeaderSize (splitCost data.length codes split)

/-- The trailer fits into the bytes that the split saves, and leaves one to tell the stream from a stored one. -/
def Saves (data : Bytes) (codes : List (Code UInt8)) (split : ℕ) : Prop :=
  layoutSize data codes split < data.length

lemma packedHeaderSize_add (n : ℕ) : n + packedHeaderSize n = alignUp 4 n + 12 := by
  rw [packedHeaderSize_eq, footerSize, Nat.add_left_comm, add_padding, Nat.add_comm]

lemma splitStream_length (data : Bytes) (codes : List (Code UInt8)) (split : ℕ) :
    (splitStream data codes split).length = layoutSize data codes split := by
  have hpacked : ((pack codes).take (packedSize (codes.take split))).length = packedSize (codes.take split) :=
    List.length_take_of_le ((packedSize_take_le codes split).trans_eq (pack_length codes).symm)
  have hraw : (data.take (data.length - produced (codes.take split))).length =
      data.length - produced (codes.take split) := List.length_take_of_le (Nat.sub_le _ _)
  simp only [splitStream, layoutSize, splitCost, Footer.asBytes, List.length_append, List.length_reverse,
    List.length_replicate, toLe_length, hpacked, hraw, packedHeaderSize_eq, footerSize]
  rw [Nat.add_comm (packedSize _)]
  omega

lemma layoutSize_mono {i j : ℕ} (h : splitCost data.length codes i ≤ splitCost data.length codes j) :
    layoutSize data codes i ≤ layoutSize data codes j := by
  rw [layoutSize, layoutSize, packedHeaderSize_add, packedHeaderSize_add]
  exact Nat.add_le_add_right (alignUp_mono 4 h) _

lemma Packing.length_stream (p : Packing data) : p.stream.length = layoutSize data p.codes p.split := by
  rw [p.stream_length, headerSize, p.cost_eq, layoutSize]

lemma Packing.length_le (p : Packing data) {split : ℕ} (h : split ≤ p.codes.length) :
    p.stream.length ≤ layoutSize data p.codes split := by
  rw [p.length_stream]
  exact layoutSize_mono (p.cheapest split h)

lemma Packing.stream_eq (p : Packing data) : p.stream = splitStream data p.codes p.split := rfl

lemma Packing.saves_split (p : Packing data) : Saves data p.codes p.split := p.saves

lemma Encoding.not_saves {input : Bytes} {s : Encoder} (h : Encoding input s codes) (hlen : input.length = data.length)
    (hcost : data.length ≤ s.bestPacked + s.bestRemaining + packedHeaderSize (s.bestPacked + s.bestRemaining))
    {split : ℕ} (hsplit : split ≤ codes.length) : ¬Saves data codes split := by
  obtain ⟨best, -, -, -, hmin⟩ := h.best
  have hle := alignUp_mono 4 (hmin split hsplit)
  rw [packedHeaderSize_add] at hcost
  rw [Saves, layoutSize, packedHeaderSize_add, ← hlen]
  omega

/-- The encoder emits the stored form or a layout of the emitted codes that can be expressed, and of these a shortest
one. It emits the stored form exactly if no layout can be expressed. -/
theorem compress_shortest (h : data.length < NONE.toNat) :
    ∃ codes stream, Emits ε data codes ∧ (∀ c ∈ codes, Encodable c) ∧ expand [] codes = some data.reverse ∧
      (compress data : Outcome ε Bytes) = ok stream ∧
      (stream = storedStream data ∨ ∃ split ≤ codes.length, Saves data codes split ∧ stream = splitStream data codes split) ∧
      stream.length ≤ (storedStream data).length ∧
      (∀ split ≤ codes.length, Saves data codes split → stream.length ≤ (splitStream data codes split).length) ∧
      (stream = storedStream data ↔ ∀ split ≤ codes.length, ¬Saves data codes split) := by
  obtain ⟨finder, s, codes, hnew, hloop, henc, hend, hlaid⟩ := compress_run (ε := ε) h
  have hreverse : data.reverse.length = data.length := List.length_reverse
  have hemits : Emits ε data codes := ⟨finder, s, hnew, hloop, hend, henc.grouped⟩
  have hexpands := henc.expands
  rw [hend, ← hreverse, List.take_length] at hexpands
  rcases hlaid with ⟨hcost, hstored⟩ | ⟨p, rfl, hpacked⟩
  · have hnone : ∀ split ≤ codes.length, ¬Saves data codes split := fun split => henc.not_saves hreverse hcost
    exact ⟨codes, _, hemits, henc.encodable, hexpands, hstored, Or.inl rfl, le_rfl,
      fun split hsplit hsaves => absurd hsaves (hnone split hsplit), iff_of_true rfl hnone⟩
  · have hlt : p.stream.length < (storedStream data).length := by
      rw [storedStream_length]
      exact Nat.lt_add_right _ (p.length_lt.trans_le (le_alignUp (by decide) _))
    refine ⟨p.codes, _, hemits, henc.encodable, hexpands, hpacked,
      Or.inr ⟨p.split, p.split_le, p.saves_split, p.stream_eq⟩, hlt.le, fun split hsplit _ => ?_,
      iff_of_false (fun heq => ?_) fun hnone => hnone p.split p.split_le p.saves_split⟩
    · exact (p.length_le hsplit).trans_eq (splitStream_length ..).symm
    · rw [heq] at hlt
      exact lt_irrefl _ hlt

theorem compress_shortest_samples :
    (∃ codes, ∃ split ≤ codes.length, Emits DecompressError recurring codes ∧ Saves recurring codes split ∧
      recurringStream = splitStream recurring codes split ∧ ∀ other ≤ codes.length,
        Saves recurring codes other → recurringStream.length ≤ (splitStream recurring codes other).length) ∧
    ∃ codes, Emits DecompressError [1, 2, 3] codes ∧ ∀ split ≤ codes.length, ¬Saves [1, 2, 3] codes split := by
  constructor
  · obtain ⟨codes, stream, hemits, -, -, hcompress, hform, -, hshortest, -⟩ :=
      compress_shortest (ε := DecompressError) (show recurring.length < NONE.toNat by decide)
    obtain rfl := ok.inj (compress_recurring.symm.trans hcompress)
    rcases hform with hstored | ⟨split, hsplit, hsaves, hlayout⟩
    · exact absurd hstored (by decide)
    · exact ⟨codes, split, hsplit, hemits, hsaves, hlayout, hshortest⟩
  · obtain ⟨codes, stream, hemits, -, -, hcompress, -, -, -, hstored⟩ :=
      compress_shortest (ε := DecompressError) (show ([1, 2, 3] : Bytes).length < NONE.toNat by decide)
    have hrun : (compress [1, 2, 3] : Outcome DecompressError Bytes) = ok [1, 2, 3, 0, 0, 0, 0, 0] := by
      decide +kernel
    obtain rfl := ok.inj (hrun.symm.trans hcompress)
    exact ⟨codes, hemits, hstored.mp (by decide)⟩

end NxObject.Blz
