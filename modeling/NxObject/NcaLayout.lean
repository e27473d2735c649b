import NxObject.NcaBuilder

/-!
# What the NCA builder lays out

The bytes and the FS header of each section, the header they end up in, and the loop that fills it in.
-/
namespace NxObject.Archive
open Outcome Placement

variable (H : Bytes → Digest)

/-! ## One section -/

def SectionData.fsType : SectionData → NcaFsType
  | .romFs _ => .romFs
  | .partition _ _ => .pfs0

def SectionData.hashType : SectionData → NcaHashType
  | .romFs _ => .romFs
  | .partition _ _ => .pfs0

def SectionData.contents : SectionData → Bytes
  | .romFs image => image
  | .partition archive _ => archive

def Ivfc.tree (image : Bytes) : Ivfc.IvfcTree :=
  ⟨Ivfc.stored H image, Ivfc.levelHeader H image, H (Ivfc.level H image 0)⟩

namespace Section

def stored (sect : Section) : Bytes :=
  match sect.data with
  | .romFs image => Ivfc.stored H image
  | .partition archive blockSize => Partition.stored H archive blockSize

def superblock (sect : Section) : List.Vector UInt8 superblockSize :=
  match sect.data with
  | .romFs image =>
    ⟨RomFsSuperblock.codec.enc (ivfcSuperblock (Ivfc.tree H image)), Codec.enc_length _ _⟩
  | .partition archive blockSize =>
    ⟨Pfs0Superblock.codec.enc (Partition.superblock H archive blockSize), Codec.enc_length _ _⟩

def fsHeader (sect : Section) : NcaFsHeader :=
  { EMPTY_FS_HEADER with
    version := 2
    fsType := sect.data.fsType.toU8
    hashType := sect.data.hashType.toU8
    cryptType := sect.encryption.cryptType.toU8
    superblock := sect.superblock H }

/-- A section that can be laid out: blocks are not empty, and a tree does not outgrow its offsets. -/
def Sound (sect : Section) : Prop :=
  match sect.data with
  | .romFs image => (Ivfc.stored H image).length < 2 ^ 64
  | .partition _ blockSize => blockSize ≠ 0

end Section

lemma exactly_enc {ε α : Type} {c : Codec α} {n : ℕ} (h : c.size = n) (a : α) :
    (exactly n (c.enc a) : Outcome ε _) = ok ⟨c.enc a, (c.enc_length a).trans h⟩ :=
  exactly_of_length ((c.enc_length a).trans h)

theorem layOutSection_eq_ok {ε : Type} {sect : Section} {r : Bytes × NcaFsHeader} :
    (layOutSection H sect : Outcome ε _) = ok r ↔
      sect.Sound H ∧ r = (sect.stored H, sect.fsHeader H) := by
  obtain ⟨data, encryption⟩ := sect
  cases data with
  | romFs image =>
    constructor
    · intro h
      obtain ⟨tree, htree, h⟩ := bind_eq_ok.mp h
      obtain ⟨hlt, rfl⟩ := (Ivfc.build_eq_ok H).mp htree
      rw [exactly_enc RomFsSuperblock.codec_size] at h
      exact ⟨hlt, (ok.inj h).symm⟩
    · rintro ⟨hlt, rfl⟩
      have htree := (Ivfc.build_eq_ok (ε := ε) H).mpr ⟨hlt, rfl⟩
      simp only [layOutSection, htree, ok_bind]
      rw [exactly_enc RomFsSuperblock.codec_size]
      rfl
  | partition archive blockSize =>
    constructor
    · intro h
      obtain ⟨built, hbuilt, h⟩ := bind_eq_ok.mp h
      obtain ⟨hne, rfl⟩ := (Partition.build_eq_ok H).mp hbuilt
      rw [exactly_enc Pfs0Superblock.codec_size] at h
      exact ⟨hne, (ok.inj h).symm⟩
    · rintro ⟨hne, rfl⟩
      have hbuilt : (Partition.build H archive blockSize : Outcome ε _) = ok _ :=
        (Partition.build_eq_ok H).mpr ⟨hne, rfl⟩
      simp only [layOutSection, hbuilt, ok_bind]
      rw [exactly_enc Pfs0Superblock.codec_size]
      rfl

/-! ## The slots -/

lemma padToMediaUnit_length (bytes : Bytes) :
    bytes.length ≤ (padToMediaUnit bytes).length ∧
      MEDIA_UNIT_SIZE ∣ (padToMediaUnit bytes).length := by
  have hlt := Nat.mod_lt bytes.length (by decide : 0 < MEDIA_UNIT_SIZE)
  rw [padToMediaUnit]
  split_ifs with hmod
  · rw [List.length_append, List.length_replicate]
    exact ⟨Nat.le_add_right _ _, dvd_add_sub_mod (by decide) _⟩
  · exact ⟨le_rfl, Nat.dvd_of_mod_eq_zero (not_not.mp hmod)⟩

lemma padToMediaUnit_append {body : Bytes} (h : MEDIA_UNIT_SIZE ∣ body.length) (data : Bytes) :
    padToMediaUnit (body ++ data) = body ++ padToMediaUnit data := by
  have hmod : (body ++ data).length % MEDIA_UNIT_SIZE = data.length % MEDIA_UNIT_SIZE := by
    obtain ⟨k, hk⟩ := h
    rw [List.length_append, hk, Nat.mul_add_mod]
  simp only [padToMediaUnit, hmod]
  split_ifs
  · rw [List.append_assoc]
  · rfl

lemma padToMediaUnit_prefix (bytes : Bytes) : ∃ pad, padToMediaUnit bytes = bytes ++ pad := by
  rw [padToMediaUnit]
  split_ifs
  · exact ⟨_, rfl⟩
  · exact ⟨[], (List.append_nil _).symm⟩

namespace NcaBuilder
variable (b : NcaBuilder)

/-- The bytes slot `i` takes up in the body. -/
def chunk (i : Fin NCA_SECTION_COUNT) : Bytes :=
  match b.sections i with
  | none => []
  | some sect => padToMediaUnit (sect.stored H)

def chunkSize (i : Fin NCA_SECTION_COUNT) : ℕ := (b.chunk H i).length

/-- Where slot `i` starts in the image. -/
def slotStart (i : Fin NCA_SECTION_COUNT) : ℕ :=
  NCA_HEADER_SIZE + offsetOf (b.chunkSize H) (List.finRange NCA_SECTION_COUNT) i

def body : Bytes := (List.finRange NCA_SECTION_COUNT).flatMap (b.chunk H)

def sectionEntry (i : Fin NCA_SECTION_COUNT) : NcaSectionEntry :=
  match b.sections i with
  | none => EMPTY_SECTION_ENTRY
  | some _ =>
    ⟨UInt32.ofNat (b.slotStart H i / MEDIA_UNIT_SIZE),
      UInt32.ofNat ((b.slotStart H i + b.chunkSize H i) / MEDIA_UNIT_SIZE),
      ⟨[1, 0, 0, 0, 0, 0, 0, 0], reserved_length⟩⟩

def sectionHash (i : Fin NCA_SECTION_COUNT) : Digest :=
  match b.sections i with
  | none => zeroes HASH_SIZE
  | some sect => H (NcaFsHeader.codec.enc (sect.fsHeader H))

def fsHeader (i : Fin NCA_SECTION_COUNT) : NcaFsHeader :=
  match b.sections i with
  | none => EMPTY_FS_HEADER
  | some sect => sect.fsHeader H

/-- The header once the slots in `done` are filled in. -/
def headerAfter (done : List (Fin NCA_SECTION_COUNT)) : NcaHeader :=
  { b.emptyHeader with
    sectionEntries := fun i => if i ∈ done then b.sectionEntry H i else EMPTY_SECTION_ENTRY
    sectionHashes := fun i => if i ∈ done then b.sectionHash H i else zeroes HASH_SIZE
    fsHeaders := fun i => if i ∈ done then b.fsHeader H i else EMPTY_FS_HEADER }

def header : NcaHeader :=
  { b.emptyHeader with
    sectionEntries := b.sectionEntry H
    sectionHashes := b.sectionHash H
    fsHeaders := b.fsHeader H
    ncaSize := UInt64.ofNat (NCA_HEADER_SIZE + (b.body H).length) }

variable {b} {H}

lemma chunkSize_dvd (i : Fin NCA_SECTION_COUNT) : MEDIA_UNIT_SIZE ∣ b.chunkSize H i := by
  rw [chunkSize, chunk]
  split
  · exact Nat.dvd_zero _
  · exact (padToMediaUnit_length _).2

lemma total_dvd (l : List (Fin NCA_SECTION_COUNT)) :
    MEDIA_UNIT_SIZE ∣ total (b.chunkSize H) l := by
  rw [total]
  refine List.dvd_sum fun n hn => ?_
  obtain ⟨i, -, rfl⟩ := List.mem_map.mp hn
  exact chunkSize_dvd i

lemma slotStart_dvd (i : Fin NCA_SECTION_COUNT) : MEDIA_UNIT_SIZE ∣ b.slotStart H i :=
  Nat.dvd_add (by decide) (total_dvd _)

lemma body_length : (b.body H).length = total (b.chunkSize H) (List.finRange NCA_SECTION_COUNT) :=
  length_flatMap_eq _ fun _ _ => rfl

lemma slotStart_add_le (i : Fin NCA_SECTION_COUNT) :
    b.slotStart H i + b.chunkSize H i ≤ NCA_HEADER_SIZE + (b.body H).length := by
  have hle : offsetOf (b.chunkSize H) (List.finRange NCA_SECTION_COUNT) i + b.chunkSize H i ≤ _ :=
    offsetOf_add_le (List.mem_finRange i)
  rw [body_length, slotStart]
  omega

lemma update_ite {α : Type} (f g : Fin NCA_SECTION_COUNT → α) (done : List (Fin NCA_SECTION_COUNT))
    (i : Fin NCA_SECTION_COUNT) :
    Function.update (fun j => if j ∈ done then f j else g j) i (f i) =
      fun j => if j ∈ done ++ [i] then f j else g j := by
  funext j
  by_cases hj : j = i
  · subst hj
    simp
  · simp [hj]

lemma ite_append {α : Type} {f g : Fin NCA_SECTION_COUNT → α} {i : Fin NCA_SECTION_COUNT}
    (h : f i = g i) (done : List (Fin NCA_SECTION_COUNT)) :
    (fun j => if j ∈ done then f j else g j) = fun j => if j ∈ done ++ [i] then f j else g j := by
  funext j
  by_cases hj : j = i
  · subst hj
    simp [h]
  · simp [hj]

lemma slotStart_of_append {done rest : List (Fin NCA_SECTION_COUNT)} {i : Fin NCA_SECTION_COUNT}
    (h : List.finRange NCA_SECTION_COUNT = done ++ i :: rest) :
    NCA_HEADER_SIZE + (done.flatMap (b.chunk H)).length = b.slotStart H i := by
  have hnodup : (done ++ i :: rest).Nodup := h ▸ List.nodup_finRange _
  have hlen : (done.flatMap (b.chunk H)).length = total (b.chunkSize H) done :=
    length_flatMap_eq _ fun _ _ => rfl
  rw [hlen, slotStart, h, offsetOf_append hnodup]

lemma mediaOffset_eq_ok {offset : ℕ} {units : UInt32} :
    mediaOffset offset = ok units ↔
      offset / MEDIA_UNIT_SIZE < 2 ^ 32 ∧ units = UInt32.ofNat (offset / MEDIA_UNIT_SIZE) := by
  rw [mediaOffset]
  split_ifs with h
  · rw [pure_eq, ok.injEq, eq_comm, and_iff_right h]
  · exact ⟨nofun, fun hlt => absurd hlt.1 h⟩

lemma bodyOffset_eq_ok {len : ℕ} {units : UInt32} : (add NCA_HEADER_SIZE len >>= mediaOffset) = ok units ↔
    NCA_HEADER_SIZE + len < 2 ^ 32 * MEDIA_UNIT_SIZE ∧
      units = UInt32.ofNat ((NCA_HEADER_SIZE + len) / MEDIA_UNIT_SIZE) := by
  rw [← Nat.div_lt_iff_lt_mul (by decide : 0 < MEDIA_UNIT_SIZE)]
  constructor
  · intro h
    obtain ⟨offset, hadd, h⟩ := bind_eq_ok.mp h
    obtain ⟨-, rfl⟩ := add_eq_ok.mp hadd
    exact mediaOffset_eq_ok.mp h
  · intro h
    have hlt : NCA_HEADER_SIZE + len < 2 ^ 32 * MEDIA_UNIT_SIZE := (Nat.div_lt_iff_lt_mul (by decide)).mp h.1
    exact bind_eq_ok.mpr ⟨_, add_of_lt (hlt.trans (by decide)), mediaOffset_eq_ok.mpr h⟩

lemma bodyOffset_of_lt {len stop : ℕ} (hstop : NCA_HEADER_SIZE + len = stop)
    (h : stop < 2 ^ 32 * MEDIA_UNIT_SIZE) :
    (add NCA_HEADER_SIZE len >>= mediaOffset) = ok (UInt32.ofNat (stop / MEDIA_UNIT_SIZE)) := by
  subst hstop
  exact bodyOffset_eq_ok.mpr ⟨h, rfl⟩

section Step
variable {done rest : List (Fin NCA_SECTION_COUNT)} {i : Fin NCA_SECTION_COUNT}

lemma buildSection_empty (hsect : b.sections i = none) :
    buildSection H b.sections (b.headerAfter H done, done.flatMap (b.chunk H)) i =
      ok (b.headerAfter H (done ++ [i]), (done ++ [i]).flatMap (b.chunk H)) := by
  have hentry : b.sectionEntry H i = EMPTY_SECTION_ENTRY := by rw [sectionEntry, hsect]
  have hhash : b.sectionHash H i = zeroes HASH_SIZE := by rw [sectionHash, hsect]
  have hfs : b.fsHeader H i = EMPTY_FS_HEADER := by rw [fsHeader, hsect]
  have hchunk : b.chunk H i = [] := by rw [chunk, hsect]
  have hheader : b.headerAfter H done = b.headerAfter H (done ++ [i]) := by
    rw [headerAfter, headerAfter, ite_append (f := b.sectionEntry H) hentry,
      ite_append (f := b.sectionHash H) hhash, ite_append (f := b.fsHeader H) hfs]
  rw [buildSection, hsect, List.flatMap_append, List.flatMap_singleton, hchunk, List.append_nil,
    ← hheader]
  rfl

lemma headerAfter_placed {sect : Section} (hsect : b.sections i = some sect) :
    { b.headerAfter H done with
      sectionEntries := Function.update (b.headerAfter H done).sectionEntries i
        ⟨UInt32.ofNat (b.slotStart H i / MEDIA_UNIT_SIZE),
          UInt32.ofNat ((b.slotStart H i + b.chunkSize H i) / MEDIA_UNIT_SIZE),
          ⟨[1, 0, 0, 0, 0, 0, 0, 0], reserved_length⟩⟩
      sectionHashes := Function.update (b.headerAfter H done).sectionHashes i
        (H (NcaFsHeader.codec.enc (sect.fsHeader H)))
      fsHeaders := Function.update (b.headerAfter H done).fsHeaders i (sect.fsHeader H) } =
    b.headerAfter H (done ++ [i]) := by
  have hentry : b.sectionEntry H i =
      ⟨UInt32.ofNat (b.slotStart H i / MEDIA_UNIT_SIZE),
        UInt32.ofNat ((b.slotStart H i + b.chunkSize H i) / MEDIA_UNIT_SIZE),
        ⟨[1, 0, 0, 0, 0, 0, 0, 0], reserved_length⟩⟩ := by
    rw [sectionEntry, hsect]
  have hhash : b.sectionHash H i = H (NcaFsHeader.codec.enc (sect.fsHeader H)) := by
    rw [sectionHash, hsect]
  have hfs : b.fsHeader H i = sect.fsHeader H := by rw [fsHeader, hsect]
  rw [← hentry, ← hhash, ← hfs]
  simp only [headerAfter, update_ite]

lemma padToMediaUnit_done {sect : Section} (hsect : b.sections i = some sect) :
    padToMediaUnit (done.flatMap (b.chunk H) ++ sect.stored H) = (done ++ [i]).flatMap (b.chunk H) := by
  have hdvd : MEDIA_UNIT_SIZE ∣ (done.flatMap (b.chunk H)).length := by
    rw [length_flatMap_eq _ fun _ _ => rfl]
    exact total_dvd done
  rw [padToMediaUnit_append hdvd, List.flatMap_append, List.flatMap_singleton, chunk, hsect]

lemma slotEnd_of_append (hsplit : List.finRange NCA_SECTION_COUNT = done ++ i :: rest) :
    NCA_HEADER_SIZE + ((done ++ [i]).flatMap (b.chunk H)).length = b.slotStart H i + b.chunkSize H i := by
  rw [List.flatMap_append, List.flatMap_singleton, List.length_append, ← Nat.add_assoc,
    slotStart_of_append hsplit, chunkSize]

lemma buildSection_placed (hsplit : List.finRange NCA_SECTION_COUNT = done ++ i :: rest)
    {sect : Section} (hsect : b.sections i = some sect) {s : NcaHeader × Bytes} :
    buildSection H b.sections (b.headerAfter H done, done.flatMap (b.chunk H)) i = ok s ↔
      s = (b.headerAfter H (done ++ [i]), (done ++ [i]).flatMap (b.chunk H)) ∧ sect.Sound H ∧
        b.slotStart H i + b.chunkSize H i < 2 ^ 32 * MEDIA_UNIT_SIZE := by
  have hstart : NCA_HEADER_SIZE + (done.flatMap (b.chunk H)).length = b.slotStart H i :=
    slotStart_of_append hsplit
  have hpad : padToMediaUnit (done.flatMap (b.chunk H) ++ sect.stored H) =
      (done ++ [i]).flatMap (b.chunk H) := padToMediaUnit_done hsect
  have hstop := slotEnd_of_append (b := b) (H := H) hsplit
  rw [buildSection, hsect]
  constructor
  · intro h
    obtain ⟨mediaStart, hmediaStart, h⟩ := bind_eq_ok.mp h
    obtain ⟨⟨data, fsHdr⟩, hlaid, h⟩ := bind_eq_ok.mp h
    obtain ⟨mediaEnd, hmediaEnd, h⟩ := bind_eq_ok.mp h
    obtain ⟨hsound, hdata⟩ := (layOutSection_eq_ok H).mp hlaid
    obtain ⟨rfl, rfl⟩ := Prod.mk.inj hdata
    rw [hpad] at hmediaEnd h
    obtain ⟨-, rfl⟩ := bodyOffset_eq_ok.mp hmediaStart
    obtain ⟨hlt, rfl⟩ := bodyOffset_eq_ok.mp hmediaEnd
    rw [hstart, hstop] at h
    rw [hstop] at hlt
    refine ⟨?_, hsound, hlt⟩
    rw [← ok.inj h, headerAfter_placed hsect]
  · rintro ⟨rfl, hsound, hlt⟩
    have hlaid : (layOutSection H sect : Outcome BuildError _) = ok _ :=
      (layOutSection_eq_ok H).mpr ⟨hsound, rfl⟩
    have hmediaStart := bodyOffset_of_lt hstart (show b.slotStart H i < _ by omega)
    have hmediaEnd := bodyOffset_of_lt hstop hlt
    simp only [hmediaStart, hlaid, hpad, hmediaEnd, ok_bind, pure_eq]
    rw [headerAfter_placed hsect]

end Step

/-- The slots in `l` hold sections that can be laid out and whose ends media offsets reach. -/
def Addressable (H : Bytes → Digest) (b : NcaBuilder) (l : List (Fin NCA_SECTION_COUNT)) : Prop :=
  ∀ i ∈ l, ∀ sect, b.sections i = some sect →
    sect.Sound H ∧ b.slotStart H i + b.chunkSize H i < 2 ^ 32 * MEDIA_UNIT_SIZE

lemma buildSection_eq_ok {done rest : List (Fin NCA_SECTION_COUNT)} {i : Fin NCA_SECTION_COUNT}
    (hsplit : List.finRange NCA_SECTION_COUNT = done ++ i :: rest) {s : NcaHeader × Bytes} :
    buildSection H b.sections (b.headerAfter H done, done.flatMap (b.chunk H)) i = ok s ↔
      s = (b.headerAfter H (done ++ [i]), (done ++ [i]).flatMap (b.chunk H)) ∧
        b.Addressable H [i] := by
  cases hsect : b.sections i with
  | none =>
    rw [buildSection_empty hsect]
    refine ⟨fun h => ⟨(ok.inj h).symm, fun j hj sect hs => ?_⟩, fun h => by rw [h.1]⟩
    rw [List.mem_singleton.mp hj, hsect] at hs
    cases hs
  | some sect =>
    rw [buildSection_placed hsplit hsect]
    refine and_congr_right fun _ => ⟨fun h j hj sect' hs => ?_, fun h => h i (by simp) sect hsect⟩
    rw [List.mem_singleton.mp hj, hsect] at hs
    rw [← Option.some.inj hs, List.mem_singleton.mp hj]
    exact h

lemma buildSections_eq_ok {done rest : List (Fin NCA_SECTION_COUNT)}
    (hsplit : List.finRange NCA_SECTION_COUNT = done ++ rest) {s : NcaHeader × Bytes} :
    rest.foldlM (buildSection H b.sections) (b.headerAfter H done, done.flatMap (b.chunk H)) = ok s ↔
      s = (b.headerAfter H (done ++ rest), (done ++ rest).flatMap (b.chunk H)) ∧
        b.Addressable H rest := by
  induction rest generalizing done s with
  | nil =>
    rw [List.append_nil]
    exact ⟨fun h => ⟨(ok.inj h).symm, nofun⟩, fun h => by rw [h.1]; rfl⟩
  | cons i rest ih =>
    have hsplit' : List.finRange NCA_SECTION_COUNT = (done ++ [i]) ++ rest := by
      rw [hsplit, List.append_assoc]
      rfl
    have hassoc : done ++ i :: rest = (done ++ [i]) ++ rest := hsplit ▸ hsplit'
    rw [List.foldlM_cons, bind_eq_ok, hassoc]
    constructor
    · rintro ⟨next, hstep, h⟩
      obtain ⟨rfl, hhead⟩ := (buildSection_eq_ok hsplit).mp hstep
      obtain ⟨rfl, htail⟩ := (ih hsplit').mp h
      refine ⟨rfl, fun j hj => ?_⟩
      rcases List.mem_cons.mp hj with rfl | hj
      · exact hhead j (List.mem_singleton_self j)
      · exact htail j hj
    · rintro ⟨rfl, h⟩
      refine ⟨_, (buildSection_eq_ok hsplit).mpr ⟨rfl, fun j hj => ?_⟩,
        (ih hsplit').mpr ⟨rfl, fun j hj => h j (List.mem_cons_of_mem i hj)⟩⟩
      exact h j (by rw [List.mem_singleton.mp hj]; exact List.mem_cons_self)

variable (b H) in
/-- The sections can be laid out, and media offsets reach their ends. -/
structure Fits : Prop where
  sound : ∀ i sect, b.sections i = some sect → sect.Sound H
  addressable : ∀ i sect, b.sections i = some sect →
    b.slotStart H i + b.chunkSize H i < 2 ^ 32 * MEDIA_UNIT_SIZE
  size : NCA_HEADER_SIZE + (b.body H).length < 2 ^ 64

theorem build_eq_ok {plain : PlainNca} :
    b.build H = ok plain ↔ plain = ⟨b.header H, b.body H⟩ ∧ b.Fits H := by
  have hempty : (b.emptyHeader, ([] : Bytes)) =
      (b.headerAfter H [], ([] : List (Fin NCA_SECTION_COUNT)).flatMap (b.chunk H)) := rfl
  have hheader : { b.headerAfter H (List.finRange NCA_SECTION_COUNT) with
      ncaSize := UInt64.ofNat (NCA_HEADER_SIZE + (b.body H).length) } = b.header H := by
    simp only [headerAfter, List.mem_finRange, if_true]
    rfl
  rw [build, hempty]
  constructor
  · intro h
    obtain ⟨⟨header, body⟩, hloop, h⟩ := bind_eq_ok.mp h
    obtain ⟨size, hsize, h⟩ := bind_eq_ok.mp h
    obtain ⟨hs, hsound⟩ := (buildSections_eq_ok (List.nil_append _).symm).mp hloop
    obtain ⟨rfl, rfl⟩ := Prod.mk.inj hs
    obtain ⟨hlt, rfl⟩ := add_eq_ok.mp hsize
    refine ⟨?_, fun i sect hs => (hsound i (List.mem_finRange i) sect hs).1,
      fun i sect hs => (hsound i (List.mem_finRange i) sect hs).2, hlt⟩
    rw [← ok.inj h, ← hheader]
    rfl
  · rintro ⟨rfl, hfits⟩
    have hloop := (buildSections_eq_ok (List.nil_append _).symm).mpr
      ⟨rfl, fun i _ sect hs => ⟨hfits.sound i sect hs, hfits.addressable i sect hs⟩⟩
    rw [hloop, ok_bind]
    change (add NCA_HEADER_SIZE (b.body H).length >>= _) = _
    rw [add_of_lt hfits.size, ok_bind, ← hheader]
    rfl

end NcaBuilder
end NxObject.Archive
