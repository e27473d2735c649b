import NxObject.BlzRoundtrip
import NxObject.KipReading

/-!
# Reading back a built KIP1

The reader recomputes the offset of every segment from the stored sizes the builder recorded. What a
segment expands to depends on its compression bit alone, which `flags` may override.
-/
namespace NxObject.Kip
open Outcome

lemma nameBytes_length (name : Text) : (nameBytes name).length = 12 := by
  simp only [nameBytes, List.length_append, List.length_take, List.length_replicate]
  omega

def Kip1Builder.contents (b : Kip1Builder) : Fin 3 → Option Bytes := ![b.text, b.rodata, b.data]

/-- The compression bit of segment `i` is set, as it is when `flags` is not used. -/
def Kip1Builder.Marks (b : Kip1Builder) (i : ℕ) : Prop :=
  b.flags.getD defaultFlags &&& (1 <<< UInt8.ofNat i) ≠ 0

instance (b : Kip1Builder) (i : ℕ) : Decidable (b.Marks i) := inferInstanceAs (Decidable (_ ≠ _))

/-- What a successful build has written: a header and the three streams it records the sizes of. -/
theorem build_spec {b : Kip1Builder} {image : Bytes} (h : b.build = ok image) :
    ∃ (header : Kip1Header) (contents streams : Fin 3 → Bytes),
      image = Kip1Header.codec.enc header ++ streams 0 ++ streams 1 ++ streams 2 ∧
      header.magic = KIP1_MAGIC ∧ header.flags = b.flags.getD defaultFlags ∧
      (∃ name, b.name = some name ∧ header.name.toList = nameBytes name) ∧
      ∀ i : Fin 3, b.contents i = some (contents i) ∧
        (Blz.compress (contents i) : Outcome BuildError Bytes) = ok (streams i) ∧
        (header.segments (i.castLE (by decide))).decompSize = UInt32.ofNat (contents i).length ∧
        (header.segments (i.castLE (by decide))).compSize = UInt32.ofNat (streams i).length := by
  unfold Kip1Builder.build at h
  obtain ⟨name, hname, h⟩ := bind_eq_ok.mp h
  obtain ⟨text, htext, h⟩ := bind_eq_ok.mp h
  obtain ⟨rodata, hrodata, h⟩ := bind_eq_ok.mp h
  obtain ⟨data, hdata, h⟩ := bind_eq_ok.mp h
  obtain ⟨_, -, h⟩ := bind_eq_ok.mp h
  obtain ⟨_, -, h⟩ := bind_eq_ok.mp h
  obtain ⟨textCompressed, htextc, h⟩ := bind_eq_ok.mp h
  obtain ⟨rodataCompressed, hrodatac, h⟩ := bind_eq_ok.mp h
  obtain ⟨dataCompressed, hdatac, h⟩ := bind_eq_ok.mp h
  obtain ⟨field, hfield, h⟩ := bind_eq_ok.mp h
  obtain ⟨_, -, h⟩ := bind_eq_ok.mp h
  rw [okOr_eq_ok] at hname htext hrodata hdata
  rw [exactly_of_length (nameBytes_length name)] at hfield
  obtain rfl := ok.inj hfield
  cases h
  refine ⟨_, ![text, rodata, data], ![textCompressed, rodataCompressed, dataCompressed], rfl, rfl,
    rfl, ⟨name, hname, rfl⟩, fun i => ?_⟩
  fin_cases i
  · exact ⟨htext, htextc, rfl, rfl⟩
  · exact ⟨hrodata, hrodatac, rfl, rfl⟩
  · exact ⟨hdata, hdatac, rfl, rfl⟩

section Reader
variable {header : Kip1Header} {streams : Fin 3 → Bytes}
  (hsize : ∀ i : Fin 3, (header.segments (i.castLE (by decide))).compSize.toNat = (streams i).length)

include hsize in
lemma storedSize_eq (i : Fin 3) : storedSize header (i.castLE (by decide)) = (streams i).length := by
  have hi : i.val ≠ bssIndex := i.isLt.ne
  rw [storedSize, Fin.val_castLE, if_neg hi, hsize]

include hsize in
lemma valid_append (hmagic : header.magic = KIP1_MAGIC) :
    Kip1.Valid ⟨header, Kip1Header.codec.enc header ++ streams 0 ++ streams 1 ++ streams 2⟩ where
  header := by
    rw [List.append_assoc, List.append_assoc]
    exact Codec.fromPrefix_append _ _ _
  magic := hmagic
  stored := by
    have h₀ := storedSize_eq hsize 0
    have h₁ := storedSize_eq hsize 1
    have h₂ := storedSize_eq hsize 2
    simp only [List.length_append, Codec.enc_length, Kip1Header.codec_size, ← h₀, ← h₁, ← h₂]
    exact le_rfl

include hsize in
lemma view_append (i : Fin 3) :
    Kip1.view ⟨header, Kip1Header.codec.enc header ++ streams 0 ++ streams 1 ++ streams 2⟩
      (i.castLE (by decide)) = ⟨i.castLE (by decide), header.segments (i.castLE (by decide)),
        isCompressed header (i.castLE (by decide)), streams i⟩ := by
  have henc : (Kip1Header.codec.enc header).length = headerSize := Codec.enc_length _ _
  obtain ⟨a, c, himage, hoffset⟩ : ∃ a c,
      Kip1Header.codec.enc header ++ streams 0 ++ streams 1 ++ streams 2 = a ++ (streams i ++ c) ∧
        a.length = segmentOffset header (i.castLE (by decide)) := by
    have h₀ := storedSize_eq hsize 0
    have h₁ := storedSize_eq hsize 1
    fin_cases i
    · exact ⟨Kip1Header.codec.enc header, streams 1 ++ streams 2, by simp, henc⟩
    · refine ⟨Kip1Header.codec.enc header ++ streams 0, streams 2, by simp, ?_⟩
      rw [List.length_append, henc, ← h₀]
      rfl
    · refine ⟨Kip1Header.codec.enc header ++ streams 0 ++ streams 1, [], by simp, ?_⟩
      rw [List.length_append, List.length_append, henc, ← h₀, ← h₁]
      rfl
  have hslice := sliceAt_eq_of_append himage hoffset (storedSize_eq hsize i).symm
  simp only [Kip1.view, hslice]

end Reader

/-- A built image is accepted, and each of its compressed segments expands to the bytes it was given
if its compression bit is set, and is handed out as the stream it is stored as if not. -/
theorem build_decompress {b : Kip1Builder} {image : Bytes} (h : b.build = ok image)
    (hlen : ∀ i xs, b.contents i = some xs → xs.length < 2 ^ 32 - 16) :
    ∃ kip, Kip1.tryFromBytes image = ok kip ∧ ∀ i : Fin 3, ∃ xs stream segment,
      b.contents i = some xs ∧ (Blz.compress xs : Outcome BuildError Bytes) = ok stream ∧
      (kip.segment i : Outcome DecompressError _) = ok (some segment) ∧
      (b.Marks i → segment.decompress = ok xs) ∧ (¬ b.Marks i → segment.decompress = ok stream) := by
  obtain ⟨header, contents, streams, rfl, hmagic, hflags, -, hsegment⟩ := build_spec h
  have hemitted : ∀ i, Blz.Emitted (contents i) (streams i) := by
    intro i
    obtain ⟨hcontents, hcompress, -⟩ := hsegment i
    have hlt := hlen i _ hcontents
    obtain ⟨stream, hc, he⟩ := Blz.compress_spec (ε := BuildError)
      (show (contents i).length < Blz.NONE.toNat from lt_trans hlt (by decide))
    rw [hcompress] at hc
    cases hc
    exact he
  have hstream : ∀ i, (streams i).length < 2 ^ 32 := by
    intro i
    have hlt := hlen i _ (hsegment i).1
    have hle := (hemitted i).length_le
    omega
  have hsize : ∀ i : Fin 3,
      (header.segments (i.castLE (by decide))).compSize.toNat = (streams i).length := by
    intro i
    rw [(hsegment i).2.2.2]
    exact UInt32.toNat_ofNat_of_lt' (hstream i)
  have hvalid := valid_append hsize hmagic
  refine ⟨_, Kip1.tryFromBytes_eq_ok.mpr ⟨rfl, hvalid⟩, fun i => ?_⟩
  obtain ⟨hcontents, hcompress, hdecomp, -⟩ := hsegment i
  have hlt := hlen i _ hcontents
  have hbit : isCompressed header (i.castLE (by decide)) = true ↔ b.Marks i := by
    have hi : ¬ bssIndex ≤ i.val := Nat.not_le.mpr i.isLt
    rw [isCompressed, Fin.val_castLE, if_neg hi, hflags, bne_iff_ne]
    rfl
  have hread := Kip1.segment_eq (ε := DecompressError) hvalid (i := i.castLE (by decide))
    (i.isLt.trans (by decide))
  rw [view_append hsize] at hread
  refine ⟨_, _, _, hcontents, hcompress, hread, fun hmark => ?_, fun hmark => ?_⟩
  · have hsize' : (UInt32.ofNat (contents i).length).toNat = (contents i).length :=
      UInt32.toNat_ofNat_of_lt' (show _ < 2 ^ 32 by omega)
    simp only [Kip1Segment.decompress, hbit.mpr hmark, not_true_eq_false, if_false, hdecomp, hsize',
      (hemitted i).decompress (show _ < 2 ^ 32 by omega), mapErr_ok]
  · have hclear := (Bool.not_eq_true _).mp (mt hbit.mp hmark)
    simp only [Kip1Segment.decompress, hclear, Bool.false_eq_true, not_false_eq_true, if_true, pure_eq]

def plainBuilder : Kip1Builder :=
  { name := some ['k', 'i', 'p'], text := some [], rodata := some [], data := some [] }

def unmarkedBuilder : Kip1Builder := { plainBuilder with flags := some 0 }

def Kip1Builder.image (b : Kip1Builder) : Bytes :=
  match b.build with
  | ok image => image
  | _ => []

lemma plainBuilder_contents (i : Fin 3) (xs : Bytes) (h : plainBuilder.contents i = some xs) :
    xs.length < 2 ^ 32 - 16 := by
  have hxs : plainBuilder.contents i = some [] := by fin_cases i <;> rfl
  rw [h] at hxs
  cases hxs
  decide

/-- A text that is packed, and two segments that are not, of which the first has its compression bit cleared. -/
def mixedBuilder : Kip1Builder :=
  { name := some ['k', 'i', 'p'], flags := some 0b00111101, text := some Blz.recurring, rodata := some [1, 2, 3],
    data := some [4, 5] }

lemma mixedBuilder_build : mixedBuilder.build = ok mixedBuilder.image := by decide +kernel

lemma mixedBuilder_contents (i : Fin 3) (xs : Bytes) (h : mixedBuilder.contents i = some xs) :
    xs.length < 2 ^ 32 - 16 := by
  have hlen : ∀ i xs, ![Blz.recurring, [1, 2, 3], [4, 5]] i = xs → xs.length < 2 ^ 32 - 16 := by
    rintro i xs rfl
    fin_cases i <;> decide
  refine hlen i xs (Option.some.inj (Eq.trans ?_ h))
  fin_cases i <;> rfl

theorem build_decompress_mixed : ∃ kip, Kip1.tryFromBytes mixedBuilder.image = ok kip ∧
    (∃ text, (kip.segment 0 : Outcome DecompressError _) = ok (some text) ∧ text.decompress = ok Blz.recurring) ∧
    (∃ rodata, (kip.segment 1 : Outcome DecompressError _) = ok (some rodata) ∧
      rodata.decompress = ok [1, 2, 3, 0, 0, 0, 0, 0]) ∧
    ∃ data, (kip.segment 2 : Outcome DecompressError _) = ok (some data) ∧ data.decompress = ok [4, 5] := by
  obtain ⟨kip, hkip, hsegment⟩ := build_decompress mixedBuilder_build mixedBuilder_contents
  obtain ⟨_, _, text, ⟨⟩, -, htext, hmarked, -⟩ := hsegment 0
  obtain ⟨_, stream, rodata, ⟨⟩, hstream, hrodata, -, hplain⟩ := hsegment 1
  obtain ⟨_, _, data, ⟨⟩, -, hdata, hmarked', -⟩ := hsegment 2
  have hstored : (Blz.compress [1, 2, 3] : Outcome BuildError Bytes) = ok [1, 2, 3, 0, 0, 0, 0, 0] := by
    decide +kernel
  obtain rfl := ok.inj (hstored.symm.trans hstream)
  exact ⟨kip, hkip, ⟨text, htext, hmarked (by decide)⟩, ⟨rodata, hrodata, hplain (by decide)⟩, data, hdata,
    hmarked' (by decide)⟩

/-- What segment `i` of an image expands to, if the image is accepted and the segment expands. -/
def expanded (image : Bytes) (i : ℕ) : Option Bytes :=
  match Kip1.tryFromBytes image with
  | ok kip =>
      match (kip.segment i : Outcome DecompressError _) with
      | ok (some segment) =>
          match segment.decompress with
          | ok xs => some xs
          | _ => none
      | _ => none
  | _ => none

def Kip1Builder.ReadsBack (b : Kip1Builder) : Prop :=
  ∀ image, b.build = ok image → ∃ kip, Kip1.tryFromBytes image = ok kip ∧
    ∀ i : Fin 3, ∃ xs segment, b.contents i = some xs ∧
      (kip.segment i : Outcome DecompressError _) = ok (some segment) ∧ segment.decompress = ok xs

/-- With its compression bit cleared, an empty segment reads as the four bytes it is stored as. -/
theorem flags_override_unpacks :
    (∀ i xs, unmarkedBuilder.contents i = some xs → xs.length < 2 ^ 32 - 16) ∧
      ¬ unmarkedBuilder.ReadsBack := by
  refine ⟨plainBuilder_contents, fun hreads => ?_⟩
  obtain ⟨kip, hkip, hsegments⟩ := hreads unmarkedBuilder.image (by decide +kernel)
  obtain ⟨xs, segment, hxs, hsegment, hdecompress⟩ := hsegments 0
  have hrun : expanded unmarkedBuilder.image 0 = some [0, 0, 0, 0] := by decide +kernel
  have hsegment' : (kip.segment 0 : Outcome DecompressError _) = ok (some segment) := hsegment
  simp only [expanded, hkip, hsegment', hdecompress, Option.some.injEq] at hrun
  have hempty : some ([] : Bytes) = some xs := hxs
  rw [hrun] at hempty
  cases hempty

end NxObject.Kip
