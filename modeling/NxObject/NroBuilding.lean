import NxObject.NroRoundtrip

/-!
# When an NRO is built

The file is sized from the data segment alone, while the text and the read-only segment are copied to
wherever they were linked. A copy that leaves the file panics; one that stays in it may still end behind the
size that the header records.
-/
namespace NxObject.Relocatable
open Outcome

/-- Where a segment ends, padded to a page. -/
def segmentEnd (vaddr : UInt32) (segment : Option Bytes) : ℕ :=
  vaddr.toNat + (padded (stored segment) 0x1000).length

lemma NroHeader.size_toNat (bs : Bytes) : (NroHeader.codec.dec bs).size.toNat = ofLe (sliceAt bs 8 4) := by
  have hsize : (NroHeader.codec.dec bs).size = UInt32.ofNat (ofLe (((bs.drop 4).drop 4).take 4)) := rfl
  have hlen : (sliceAt bs 8 4).length ≤ 4 := List.length_take_le _ _
  have hlt := (ofLe_lt (sliceAt bs 8 4)).trans_le (Nat.pow_le_pow_right (by decide : 0 < 256) hlen)
  rw [hsize, List.drop_drop]
  exact UInt32.toNat_ofNat_of_lt' hlt

lemma NroHeader.sliceAt_size (header : NroHeader) :
    sliceAt (NroHeader.codec.enc header) 8 4 = toLe 4 header.size.toNat := by
  obtain ⟨rest, hrest⟩ : ∃ rest, NroHeader.codec.enc header =
      (toLe 4 header.magic.toNat ++ toLe 4 header.version.toNat) ++ (toLe 4 header.size.toNat ++ rest) :=
    ⟨_, (List.append_assoc _ _ _).symm⟩
  exact sliceAt_eq_of_append hrest (by simp) (toLe_length _ _)

namespace NroBuilder
variable (b : NroBuilder)

def textEnd : ℕ := segmentEnd b.textVaddr b.text

def rodataEnd : ℕ := segmentEnd b.rodataVaddr b.rodata

def dataEnd : ℕ := segmentEnd b.dataVaddr b.data

/-- The size of the file: up to the end of the data segment, and the assets behind it. -/
def fileSize : ℕ := b.totalSize (stored b.data)

/-- Every segment ends below `2^32`, and the file is no longer than a vector can be. -/
structure InRange : Prop where
  text : b.textEnd < 2 ^ 32
  rodata : b.rodataEnd < 2 ^ 32
  data : b.dataEnd < 2 ^ 32
  file : b.fileSize < 2 ^ 63

def missing : Option BuildError :=
  if b.text = none then some .missingText
  else if b.rodata = none then some .missingRodata
  else if b.data = none then some .missingData
  else none

/-- The four bytes at `0x18`, where the size is recorded. Assets that follow on less than `0x1C` bytes lay
their header over them. -/
def sizeBytes : Bytes :=
  if b.hasAssets then
    (toLe 4 b.dataEnd).take (b.dataEnd - 0x18) ++
      sliceAt (NroAssetHeader.codec.enc b.assetHeader) (0x18 - b.dataEnd) (4 - (b.dataEnd - 0x18))
  else toLe 4 b.dataEnd

/-- What is asked of a build: the error for a missing segment, or an image whose header records a size that
no segment ends behind. -/
def BuildsContained : Prop :=
  (∃ e, b.missing = some e ∧ b.build = err e) ∨
    ∃ image header, b.build = ok image ∧ NroHeader.codec.fromPrefix (image.drop 0x10) = some header ∧
      b.textEnd ≤ header.size.toNat ∧ b.rodataEnd ≤ header.size.toNat ∧ b.dataEnd ≤ header.size.toNat

/-- The file has room for the header and for every segment, and no segment ends behind the recorded size. -/
structure Contained : Prop where
  header_le : 0x80 ≤ b.fileSize
  text_le : b.textEnd ≤ b.fileSize
  rodata_le : b.rodataEnd ≤ b.fileSize
  text_size : b.textEnd ≤ ofLe b.sizeBytes
  rodata_size : b.rodataEnd ≤ ofLe b.sizeBytes
  data_size : b.dataEnd ≤ ofLe b.sizeBytes

variable {b}

lemma build_missing {e : BuildError} (h : b.missing = some e) : b.build = err e := by
  rw [missing] at h
  split_ifs at h with htext hrodata hdata
  · obtain rfl := Option.some.inj h
    rw [build, htext]
    rfl
  · obtain rfl := Option.some.inj h
    obtain ⟨text, htext⟩ := Option.ne_none_iff_exists'.mp htext
    rw [build, htext, hrodata]
    rfl
  · obtain rfl := Option.some.inj h
    obtain ⟨text, htext⟩ := Option.ne_none_iff_exists'.mp htext
    obtain ⟨rodata, hrodata⟩ := Option.ne_none_iff_exists'.mp hrodata
    rw [build, htext, hrodata, hdata]
    rfl

lemma eq_some_stored {segment : Option Bytes} (h : segment ≠ none) : segment = some (stored segment) := by
  obtain ⟨bytes, rfl⟩ := Option.ne_none_iff_exists'.mp h
  rfl

section Present
variable (hmissing : b.missing = none) (h : b.InRange)

include hmissing h in
lemma sized_of_present : b.Sized (stored b.text) (stored b.rodata) (stored b.data) := by
  rw [missing] at hmissing
  split_ifs at hmissing with htext hrodata hdata
  exact ⟨eq_some_stored htext, eq_some_stored hrodata, eq_some_stored hdata, h.text, h.rodata, h.data, h.file⟩

variable (b) in
def writes : List Part :=
  b.segmentParts (stored b.text) (stored b.rodata) (stored b.data) ++ b.assetParts (stored b.data)

lemma writes_fit_iff : (∀ p ∈ b.writes, p.stop ≤ b.fileSize) ↔
    0x80 ≤ b.fileSize ∧ b.textEnd ≤ b.fileSize ∧ b.rodataEnd ≤ b.fileSize := by
  have hdata : b.dataVaddr.toNat + (padded (stored b.data) 0x1000).length ≤ b.fileSize := nroSize_le b _
  rw [writes, List.forall_mem_append, segmentParts]
  simp only [List.forall_mem_cons, Part.stop, Codec.enc_length, NroHeader.codec_size]
  constructor
  · rintro ⟨⟨htext, hrodata, -, hheader, -⟩, -⟩
    exact ⟨hheader, htext, hrodata⟩
  · rintro ⟨hheader, htext, hrodata⟩
    exact ⟨⟨htext, hrodata, hdata, hheader, List.forall_mem_nil _⟩, fun p hp => (assetParts_bounds b _ p hp).2⟩

include hmissing h in
lemma build_eq_ok_iff {image : Bytes} : b.build = ok image ↔
    (∀ p ∈ b.writes, p.stop ≤ b.fileSize) ∧ image = written (List.replicate b.fileSize 0) b.writes := by
  have hbuild : b.build = writeParts (List.replicate b.fileSize 0) b.writes :=
    build_eq_writeParts (sized_of_present hmissing h)
  rw [hbuild]
  by_cases hfits : ∀ p ∈ b.writes, p.stop ≤ b.fileSize
  · rw [writeParts_eq (by simpa using hfits), and_iff_right hfits, ok.injEq, eq_comm]
  · refine iff_of_false ?_ fun hok => hfits hok.1
    push Not at hfits
    rw [writeParts_eq_panic (by simpa using hfits)]
    nofun

include h in
lemma sliceAt_size_segments
    (hfits : ∀ p ∈ b.segmentParts (stored b.text) (stored b.rodata) (stored b.data), p.stop ≤ b.fileSize) :
    sliceAt (written (List.replicate b.fileSize 0)
      (b.segmentParts (stored b.text) (stored b.rodata) (stored b.data))) 0x18 4 = toLe 4 b.dataEnd := by
  obtain ⟨buf, hbuf⟩ : ∃ buf, written (List.replicate b.fileSize 0)
      [(b.textVaddr.toNat, padded (stored b.text) 0x1000),
        (b.rodataVaddr.toNat, padded (stored b.rodata) 0x1000),
        (b.dataVaddr.toNat, padded (stored b.data) 0x1000)] = buf := ⟨_, rfl⟩
  have hlen : buf.length = b.fileSize := by
    rw [← hbuf, written_length, List.length_replicate]
    intro p hp
    rw [List.length_replicate]
    refine hfits p ?_
    simp only [List.mem_cons, List.not_mem_nil, or_false] at hp
    rcases hp with rfl | rfl | rfl <;> simp [segmentParts]
  obtain ⟨header, hheader⟩ :
    ∃ header, b.header (stored b.text) (stored b.rodata) (stored b.data) = header := ⟨_, rfl⟩
  have hsize : header.size.toNat = b.dataEnd := by
    rw [← hheader]
    exact UInt32.toNat_ofNat_of_lt' h.data
  have hlast : 0x10 + (NroHeader.codec.enc header).length ≤ buf.length := by
    rw [hlen]
    exact hfits (0x10, _) (by simp [segmentParts, hheader])
  have hstop : 0x18 + 4 ≤ 0x10 + (NroHeader.codec.enc header).length := by
    rw [Codec.enc_length, NroHeader.codec_size]
    omega
  have hwritten : written (List.replicate b.fileSize 0)
      (b.segmentParts (stored b.text) (stored b.rodata) (stored b.data)) =
        overwrite buf 0x10 (NroHeader.codec.enc header) := by
    rw [segmentParts, hheader, ← hbuf]
    rfl
  rw [hwritten, sliceAt_overwrite_of_le hlast hstop]
  change [] ++ sliceAt (NroHeader.codec.enc header) 8 4 = _
  rw [List.nil_append, NroHeader.sliceAt_size, hsize]

include h in
lemma sliceAt_size (hfits : ∀ p ∈ b.writes, p.stop ≤ b.fileSize) :
    sliceAt (written (List.replicate b.fileSize 0) b.writes) 0x18 4 = b.sizeBytes := by
  rw [writes, List.forall_mem_append] at hfits
  obtain ⟨hsegments, hassetsFit⟩ := hfits
  have hrecorded := sliceAt_size_segments h hsegments
  have hlen : (written (List.replicate b.fileSize 0)
      (b.segmentParts (stored b.text) (stored b.rodata) (stored b.data))).length = b.fileSize := by
    rw [written_length (by simpa using hsegments), List.length_replicate]
  rw [writes, written_append]
  generalize written _ (b.segmentParts (stored b.text) (stored b.rodata) (stored b.data)) = front
    at hrecorded hlen ⊢
  rw [sizeBytes, assetParts]
  split_ifs with hassets
  · rw [assetParts, if_pos hassets, ← hlen] at hassetsFit
    obtain ⟨hfirst, hrest⟩ := List.forall_mem_cons.mp hassetsFit
    have hn : b.nroSize (stored b.data) = b.dataEnd := rfl
    rw [written, List.foldl_cons]
    refine (sliceAt_written_of_apart (by rwa [overwrite_length hfirst]) ?_).trans ?_
    · simp only [List.forall_mem_cons, iconPos, nacpPos, romfsPos]
      exact ⟨Or.inl (by omega), Or.inl (by omega), Or.inl (by omega), List.forall_mem_nil _⟩
    · rw [sliceAt_overwrite_of_le hfirst, hrecorded, hn]
      rw [Codec.enc_length, NroAssetHeader.codec_size]
      omega
  · exact hrecorded

end Present

lemma contained_iff (h : b.InRange) (hassets : b.hasAssets → 0x1C ≤ b.dataEnd) :
    b.Contained ↔ 0x80 ≤ b.fileSize ∧ b.textEnd ≤ b.dataEnd ∧ b.rodataEnd ≤ b.dataEnd := by
  have hlt := h.data
  have hle : b.dataEnd ≤ b.fileSize := nroSize_le b _
  have hbytes : b.sizeBytes = toLe 4 b.dataEnd := by
    rw [sizeBytes]
    split_ifs with hsome
    · have hpast := hassets hsome
      rw [List.take_of_length_le (by rw [toLe_length]; omega), show 4 - (b.dataEnd - 0x18) = 0 by omega]
      exact List.append_nil _
    · rfl
  have hsize : ofLe b.sizeBytes = b.dataEnd := by rw [hbytes, ofLe_toLe_of_lt hlt]
  constructor
  · intro hc
    exact ⟨hc.header_le, hsize ▸ hc.text_size, hsize ▸ hc.rodata_size⟩
  · rintro ⟨hheader, htext, hrodata⟩
    exact ⟨hheader, htext.trans hle, hrodata.trans hle, by rwa [hsize], by rwa [hsize], hsize.ge⟩

/-- Building succeeds, and records a size that contains every segment, exactly if the file that is sized from
the data segment has room for the others and for the header. A missing segment is reported. -/
lemma buildsContained_of_inRange (h : b.InRange) :
    b.BuildsContained ↔ b.missing ≠ none ∨ b.Contained := by
  cases hmissing : b.missing with
  | some e =>
    exact iff_of_true (Or.inl ⟨e, hmissing, build_missing hmissing⟩) (Or.inl (Option.some_ne_none e))
  | none =>
    have hread : ∀ {image : Bytes} {header : NroHeader}, b.build = ok image →
        NroHeader.codec.fromPrefix (image.drop 0x10) = some header →
        header.size.toNat = ofLe b.sizeBytes := by
      intro image header hbuild hheader
      obtain ⟨hfits, rfl⟩ := (build_eq_ok_iff hmissing h).mp hbuild
      rw [Codec.fromPrefix] at hheader
      split_ifs at hheader with hroom
      obtain rfl := Option.some.inj hheader
      rw [NroHeader.size_toNat, sliceAt, List.drop_drop, ← sliceAt_size h hfits]
      rfl
    simp only [ne_eq, not_true_eq_false, false_or]
    constructor
    · rintro (⟨e, he, -⟩ | ⟨image, header, hbuild, hheader, htext, hrodata, hdata⟩)
      · rw [hmissing] at he
        cases he
      · obtain ⟨hroom, htextLe, hrodataLe⟩ := writes_fit_iff.mp ((build_eq_ok_iff hmissing h).mp hbuild).1
        rw [hread hbuild hheader] at htext hrodata hdata
        exact ⟨hroom, htextLe, hrodataLe, htext, hrodata, hdata⟩
    · intro hc
      have hfits := writes_fit_iff.mpr ⟨hc.header_le, hc.text_le, hc.rodata_le⟩
      have hbuild := (build_eq_ok_iff hmissing h).mpr ⟨hfits, rfl⟩
      have hlen : (written (List.replicate b.fileSize 0) b.writes).length = b.fileSize := by
        rw [written_length (by simpa using hfits), List.length_replicate]
      have hroom : NroHeader.codec.size ≤ ((written (List.replicate b.fileSize 0) b.writes).drop 0x10).length := by
        have hle := hc.header_le
        rw [NroHeader.codec_size, List.length_drop, hlen]
        omega
      refine Or.inr ⟨_, _, hbuild, if_pos hroom, ?_⟩
      rw [hread hbuild (if_pos hroom)]
      exact ⟨hc.text_size, hc.rodata_size, hc.data_size⟩

/-- A build does what is asked of it exactly if a segment is missing, or the file holds the header and no
segment ends behind the recorded size: behind the data segment, where the size field is not covered. -/
theorem buildsContained_iff (h : b.InRange) :
    (b.BuildsContained ↔ b.missing ≠ none ∨ b.Contained) ∧
      ((b.hasAssets → 0x1C ≤ b.dataEnd) →
        (b.Contained ↔ 0x80 ≤ b.fileSize ∧ b.textEnd ≤ b.dataEnd ∧ b.rodataEnd ≤ b.dataEnd)) :=
  ⟨buildsContained_of_inRange h, contained_iff h⟩

def emptyNro : NroBuilder := { text := some [], rodata := some [], data := some [] }

lemma segmentEnd_empty : segmentEnd 0 (some []) = 0 := by
  change 0 + (padded [] 0x1000).length = 0
  rw [padded_length (by decide)]
  rfl

lemma emptyNro_inRange : emptyNro.InRange := by
  have hfile : emptyNro.fileSize = 0 := segmentEnd_empty
  refine ⟨?_, ?_, ?_, ?_⟩
  · exact lt_of_eq_of_lt segmentEnd_empty (Nat.two_pow_pos 32)
  · exact lt_of_eq_of_lt segmentEnd_empty (Nat.two_pow_pos 32)
  · exact lt_of_eq_of_lt segmentEnd_empty (Nat.two_pow_pos 32)
  · rw [hfile]
    exact Nat.two_pow_pos 63

def pagedNro (textVaddr : UInt32) : NroBuilder :=
  { text := some [1]
    textVaddr
    rodata := some [2]
    rodataVaddr := 0x1000
    data := some [3]
    dataVaddr := 0x2000 }

lemma segmentEnd_page (vaddr : UInt32) (x : UInt8) : segmentEnd vaddr (some [x]) = vaddr.toNat + 0x1000 := by
  rw [segmentEnd, stored, Option.getD_some, padded_length (by decide)]
  exact congrArg (vaddr.toNat + ·) (by decide : Placement.alignUp 0x1000 1 = 0x1000)

lemma pagedNro_dataEnd (textVaddr : UInt32) : (pagedNro textVaddr).dataEnd = 0x3000 := segmentEnd_page 0x2000 3

lemma pagedNro_fileSize (textVaddr : UInt32) : (pagedNro textVaddr).fileSize = 0x3000 := pagedNro_dataEnd textVaddr

lemma pagedNro_inRange {textVaddr : UInt32} (h : textVaddr.toNat + 0x1000 < 2 ^ 32) : (pagedNro textVaddr).InRange where
  text := (segmentEnd_page textVaddr 1).trans_lt h
  rodata := (segmentEnd_page 0x1000 2).trans_lt (by decide)
  data := (pagedNro_dataEnd textVaddr).trans_lt (by decide)
  file := (pagedNro_fileSize textVaddr).trans_lt (by decide)

theorem buildsContained_iff_paged : (pagedNro 0).BuildsContained ∧ ¬(pagedNro 0x4000).BuildsContained := by
  obtain ⟨hbuilds, hcontained⟩ := buildsContained_iff (@pagedNro_inRange 0 (by decide))
  obtain ⟨hbuilds', hcontained'⟩ := buildsContained_iff (@pagedNro_inRange 0x4000 (by decide))
  have htext : (pagedNro 0).textEnd = 0x1000 := segmentEnd_page 0 1
  have hrodata : (pagedNro 0).rodataEnd = 0x2000 := segmentEnd_page 0x1000 2
  have htext' : (pagedNro 0x4000).textEnd = 0x5000 := segmentEnd_page 0x4000 1
  constructor
  · refine hbuilds.mpr (Or.inr ((hcontained nofun).mpr ?_))
    rw [pagedNro_fileSize, pagedNro_dataEnd, htext, hrodata]
    decide
  · intro h
    rcases hbuilds'.mp h with hmissing | h
    · exact hmissing rfl
    · obtain ⟨-, hle, -⟩ := (hcontained' nofun).mp h
      rw [pagedNro_dataEnd, htext'] at hle
      exact absurd hle (by decide)

/-- The header does not fit a file without segments: building panics. -/
theorem emptyNro_panics : emptyNro.InRange ∧ emptyNro.missing = none ∧ emptyNro.build = panic ∧
    ¬emptyNro.BuildsContained := by
  have hfile : emptyNro.fileSize = 0 := segmentEnd_empty
  have hbuild : emptyNro.build = panic := by
    refine (build_eq_writeParts (sized_of_present rfl emptyNro_inRange)).trans (writeParts_eq_panic ?_)
    refine ⟨(0x10, NroHeader.codec.enc (emptyNro.header [] [] [])), List.mem_append_left _ ?_, ?_⟩
    · exact List.mem_cons_of_mem _ (List.mem_cons_of_mem _ (List.mem_cons_of_mem _ List.mem_cons_self))
    change (List.replicate emptyNro.fileSize (0 : UInt8)).length < _
    rw [List.length_replicate, hfile]
    exact Nat.lt_of_lt_of_le (by decide : 0 < 0x10) (Nat.le_add_right _ _)
  refine ⟨emptyNro_inRange, rfl, hbuild, ?_⟩
  rintro (⟨e, he, -⟩ | ⟨image, header, hok, -⟩)
  · cases he
  · rw [hbuild] at hok
    cases hok

end NroBuilder
end NxObject.Relocatable
