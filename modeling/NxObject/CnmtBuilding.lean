import NxObject.CnmtReading
import NxObject.KeyOrder

/-!
# Building a content meta file

Every content is checked when it is added, so what is left to build is a sort and a table. The sort makes the
order of the calls irrelevant: their types tell the contents apart.
-/
namespace NxObject.ContentMeta
open Outcome

def PATCH_TITLE_ID_OFFSET : UInt64 := 0x800

def MAX_CONTENT_SIZE : UInt64 := ((1 : UInt64) <<< 48) - 1

structure ContentRecord where
  hash : List.Vector UInt8 0x20
  size : UInt64
  contentType : CnmtContentType
  deriving DecidableEq

inductive AddContentError where
  | contentTooLarge (size : UInt64)
  | duplicateContentType (contentType : CnmtContentType)
  deriving DecidableEq, Repr

structure CnmtBuilder where
  titleId : UInt64
  titleVersion : UInt32
  records : List ContentRecord

/-- The record as it stands in the file, named by the head of its hash. -/
def ContentRecord.toRaw (record : ContentRecord) : CnmtContentRecord where
  hash := record.hash
  ncaId := ⟨record.hash.toList.take 0x10, by rw [List.length_take, record.hash.toList_length]; rfl⟩
  size := ⟨(toLe 8 record.size.toNat).take 6, by rw [List.length_take, toLe_length]; rfl⟩
  contentType := record.contentType.toU8
  idOffset := 0

def ContentRecord.key (record : ContentRecord) : ℕ := record.contentType.toU8.toNat

namespace CnmtBuilder

def new (titleId : UInt64) : CnmtBuilder where
  titleId
  titleVersion := 0
  records := []

variable (b : CnmtBuilder)

def setTitleVersion (titleVersion : UInt32) : CnmtBuilder := { b with titleVersion }

def addContent (record : ContentRecord) : Outcome AddContentError CnmtBuilder :=
  if MAX_CONTENT_SIZE < record.size then err (.contentTooLarge record.size)
  else if b.records.any fun existing => existing.contentType.toU8 == record.contentType.toU8 then
    err (.duplicateContentType record.contentType)
  else ok { b with records := b.records ++ [record] }

def ordered : List ContentRecord := sortOn ContentRecord.key b.records

def header : CnmtHeader where
  titleId := b.titleId
  titleVersion := b.titleVersion
  metaType := CnmtContentMetaType.application.toU8
  reserved0xd := 0
  extendedHeaderSize := UInt16.ofNat CnmtApplicationExtendedHeader.codec.size
  contentEntryCount := UInt16.ofNat b.ordered.length
  metaEntryCount := 0
  reserved0x14 := List.Vector.replicate 0xC 0

def extendedHeader : CnmtApplicationExtendedHeader where
  patchTitleId := b.titleId + PATCH_TITLE_ID_OFFSET
  requiredSystemVersion := 0
  requiredApplicationVersion := 0

def build : Bytes :=
  CnmtHeader.codec.enc b.header ++ CnmtApplicationExtendedHeader.codec.enc b.extendedHeader ++
    (b.ordered.flatMap fun record => CnmtContentRecord.codec.enc record.toRaw) ++ List.replicate 0x20 0

end CnmtBuilder

def CnmtContentRecord.typeOf (record : CnmtContentRecord) : Option CnmtContentType :=
  ContentMeta.contentType record.contentType

/-! ## Adding contents -/

lemma contentType_toU8 (t : CnmtContentType) : contentType t.toU8 = some t := by
  cases t <;> rfl

lemma toU8_injective : Function.Injective CnmtContentType.toU8 := by
  intro t t' h
  have htype := contentType_toU8 t
  rw [h, contentType_toU8] at htype
  exact (Option.some.inj htype).symm

lemma maxContentSize_lt_iff {size : UInt64} : MAX_CONTENT_SIZE < size ↔ 2 ^ 48 - 1 < size.toNat := Iff.rfl

/-- The size does not fit in six bytes, or the type is taken. -/
def Refused (added : List ContentRecord) (record : ContentRecord) : Prop :=
  2 ^ 48 - 1 < record.size.toNat ∨ ∃ existing ∈ added, existing.contentType = record.contentType

section Calls
variable {b built : CnmtBuilder} {record : ContentRecord}

lemma not_refused_iff {added : List ContentRecord} : ¬Refused added record ↔
    record.size.toNat ≤ 2 ^ 48 - 1 ∧ ∀ existing ∈ added, existing.contentType ≠ record.contentType := by
  rw [Refused, not_or, Nat.not_lt]
  simp only [not_exists, not_and, ne_eq]

lemma any_type_iff : (b.records.any fun existing => existing.contentType.toU8 == record.contentType.toU8) = true ↔
    ∃ existing ∈ b.records, existing.contentType = record.contentType := by
  simp only [List.any_eq_true, beq_iff_eq, toU8_injective.eq_iff]

lemma addContent_of_not_refused (h : ¬Refused b.records record) :
    b.addContent record = ok { b with records := b.records ++ [record] } := by
  obtain ⟨hsize, htype⟩ := not_or.mp h
  rw [CnmtBuilder.addContent, if_neg (maxContentSize_lt_iff.not.mpr hsize), if_neg (any_type_iff.not.mpr htype)]

lemma addContent_of_refused (h : Refused b.records record) : ∃ e, b.addContent record = err e := by
  rw [CnmtBuilder.addContent]
  by_cases hsize : MAX_CONTENT_SIZE < record.size
  · exact ⟨_, if_pos hsize⟩
  · have htype := h.resolve_left (maxContentSize_lt_iff.not.mp hsize)
    exact ⟨_, (if_neg hsize).trans (if_pos (any_type_iff.mpr htype))⟩

lemma addContent_eq_ok : b.addContent record = ok built ↔
    ¬Refused b.records record ∧ built = { b with records := b.records ++ [record] } := by
  by_cases h : Refused b.records record
  · obtain ⟨e, he⟩ := addContent_of_refused h
    rw [he]
    exact ⟨nofun, fun hok => absurd h hok.1⟩
  · rw [addContent_of_not_refused h, ok.injEq, and_iff_right h, eq_comm]

lemma addContents_eq_ok {calls : List ContentRecord} (hb : (b.records.map ContentRecord.contentType).Nodup) :
    calls.foldlM CnmtBuilder.addContent b = ok built ↔
      ((∀ record ∈ calls, record.size.toNat ≤ 2 ^ 48 - 1) ∧
        ((b.records ++ calls).map ContentRecord.contentType).Nodup) ∧
        built = { b with records := b.records ++ calls } := by
  induction calls generalizing b with
  | nil =>
    rw [List.foldlM_nil, pure_eq, ok.injEq, List.append_nil, eq_comm]
    exact ⟨fun h => ⟨⟨nofun, hb⟩, h⟩, And.right⟩
  | cons record calls ih =>
    have hcons : b.records ++ record :: calls = (b.records ++ [record]) ++ calls := by simp
    have hstep : ((b.records ++ [record]).map ContentRecord.contentType).Nodup ↔
        ∀ existing ∈ b.records, existing.contentType ≠ record.contentType := by
      rw [List.map_append, List.nodup_append, and_iff_right hb]
      simp
    rw [List.foldlM_cons, bind_eq_ok, hcons, List.forall_mem_cons]
    constructor
    · rintro ⟨next, hnext, h⟩
      obtain ⟨hadmitted, rfl⟩ := addContent_eq_ok.mp hnext
      obtain ⟨hsize, htypes⟩ := not_refused_iff.mp hadmitted
      obtain ⟨⟨hsizes, hnodup⟩, hbuilt⟩ := (ih (hstep.mpr htypes)).mp h
      exact ⟨⟨⟨hsize, hsizes⟩, hnodup⟩, hbuilt⟩
    · rintro ⟨⟨⟨hsize, hsizes⟩, hnodup⟩, hbuilt⟩
      have hfirst : ((b.records ++ [record]).map ContentRecord.contentType).Nodup :=
        hnodup.sublist ((List.sublist_append_left _ _).map _)
      have hadmitted := not_refused_iff.mpr ⟨hsize, hstep.mp hfirst⟩
      exact ⟨_, addContent_eq_ok.mpr ⟨hadmitted, rfl⟩, (ih hfirst).mpr ⟨⟨hsizes, hnodup⟩, hbuilt⟩⟩

lemma addContents_new {titleId : UInt64} {titleVersion : UInt32} {calls : List ContentRecord} :
    calls.foldlM CnmtBuilder.addContent ((CnmtBuilder.new titleId).setTitleVersion titleVersion) = ok built ↔
      ((∀ record ∈ calls, record.size.toNat ≤ 2 ^ 48 - 1) ∧ (calls.map ContentRecord.contentType).Nodup) ∧
        built = ⟨titleId, titleVersion, calls⟩ :=
  addContents_eq_ok List.nodup_nil

end Calls

/-! ## Reading what is built -/

lemma nodup_key {records : List ContentRecord} (h : (records.map ContentRecord.contentType).Nodup) :
    (records.map ContentRecord.key).Nodup := by
  have hkey : Function.Injective fun t : CnmtContentType => t.toU8.toNat :=
    fun t t' h => toU8_injective (UInt8.toNat_inj.mp h)
  have hmap := h.map hkey
  rwa [List.map_map] at hmap

lemma length_le_of_nodup {records : List ContentRecord} (h : (records.map ContentRecord.contentType).Nodup) :
    records.length ≤ 7 := by
  have hall : records.map ContentRecord.contentType ⊆
      [.cnmt, .program, .data, .control, .htmlDocument, .legalInformation, .deltaFragment] := by
    intro t _
    cases t <;> decide
  have hle := (List.subperm_of_subset h hall).length_le
  rwa [List.length_map] at hle

lemma toLe_add (w v n : ℕ) : toLe (w + v) n = toLe w n ++ toLe v (n / 256 ^ w) := by
  induction w generalizing n with
  | zero => rw [Nat.zero_add, pow_zero, Nat.div_one, toLe, List.nil_append]
  | succ w ih => rw [Nat.succ_add, toLe, toLe, ih, List.cons_append, Nat.div_div_eq_div_mul, pow_succ']

/-- What the reader makes of a record that was added. -/
structure Reads (raw : CnmtContentRecord) (record : ContentRecord) : Prop where
  hash : raw.hash = record.hash
  ncaId : raw.ncaId.toList = record.hash.toList.take 16
  size : ∀ {ε : Type}, (raw.sizeValue : Outcome ε ℕ) = ok record.size.toNat
  contentType : raw.typeOf = some record.contentType

lemma toRaw_reads {record : ContentRecord} (h : record.size.toNat ≤ 2 ^ 48 - 1) : Reads record.toRaw record where
  hash := rfl
  ncaId := rfl
  size := by
    intro ε
    have hlt : record.size.toNat < 256 ^ 6 := Nat.lt_of_le_pred (by decide) h
    have hsplit : toLe 8 record.size.toNat = toLe 6 record.size.toNat ++ [0, 0] := by
      rw [toLe_add 6 2, Nat.div_eq_of_lt hlt]
      rfl
    have hbytes : record.toRaw.size.toList = toLe 6 record.size.toNat := by
      change (toLe 8 record.size.toNat).take 6 = _
      rw [hsplit, List.take_left' (toLe_length 6 _)]
    rw [CnmtContentRecord.sizeValue_eq, hbytes, ← hsplit, ofLe_toLe_of_lt (hlt.trans (by decide))]
  contentType := contentType_toU8 record.contentType

/-- The file describes the title and the contents, these in the order of their types. -/
structure Describes (cnmt : Cnmt) (title : UInt64) (version : UInt32) (contents : List ContentRecord) : Prop where
  titleId : cnmt.titleId = title
  titleVersion : cnmt.titleVersion = version
  metaType : cnmt.metaType = some .application
  extendedHeader : ∃ extended, cnmt.extendedHeader = some extended ∧
    extended.patchTitleId.toNat = (title.toNat + 0x800) % 2 ^ 64
  records : ∃ ordered : List ContentRecord, ordered.Perm contents ∧
    (ordered.Pairwise fun r r' => r.contentType.toU8 < r'.contentType.toU8) ∧
      List.Forall₂ Reads cnmt.records ordered

def CnmtBuilder.view (b : CnmtBuilder) : Cnmt :=
  ⟨b.header, some b.extendedHeader, b.ordered.map ContentRecord.toRaw⟩

section Build
variable (b : CnmtBuilder) (hnodup : (b.records.map ContentRecord.contentType).Nodup)
include hnodup

lemma tryFromBytes_build : Cnmt.tryFromBytes b.build = ok b.view := by
  have hlen : b.ordered.length ≤ 7 :=
    (sortOn_perm ContentRecord.key b.records).length_eq.trans_le (length_le_of_nodup hnodup)
  refine Cnmt.tryFromBytes_eq_ok.mpr
    ⟨CnmtApplicationExtendedHeader.codec.enc b.extendedHeader, List.replicate 0x20 0, ?_, ?_, ?_, ?_⟩
  · rw [CnmtBuilder.build, Cnmt.toBytes, CnmtBuilder.view, List.flatMap_map, List.append_assoc, List.append_assoc]
  · exact Codec.enc_length _ _
  · have happ : b.header.IsApplication := ⟨rfl, rfl⟩
    rw [CnmtBuilder.view, if_pos happ, Codec.fromBytes_enc]
  · rw [CnmtBuilder.view, List.length_map]
    exact (UInt16.toNat_ofNat_of_lt' (hlen.trans_lt (by decide))).symm

lemma view_describes (hsizes : ∀ record ∈ b.records, record.size.toNat ≤ 2 ^ 48 - 1) :
    Describes b.view b.titleId b.titleVersion b.records where
  titleId := rfl
  titleVersion := rfl
  metaType := rfl
  extendedHeader := ⟨_, rfl, UInt64.toNat_add _ _⟩
  records := by
    have hperm := sortOn_perm ContentRecord.key b.records
    refine ⟨b.ordered, hperm, ?_, ?_⟩
    · have hdistinct := List.nodup_iff_pairwise_ne.mp (hperm.map ContentRecord.key |>.nodup_iff.mpr (nodup_key hnodup))
      have hle := pairwise_sortOn ContentRecord.key b.records
      exact (hle.and (List.pairwise_map.mp hdistinct)).imp fun h => UInt8.lt_iff_toNat_lt.mpr (h.1.lt_of_ne h.2)
    · rw [CnmtBuilder.view, List.forall₂_map_left_iff]
      exact List.forall₂_same.mpr fun record hmem => toRaw_reads (hsizes record (hperm.mem_iff.mp hmem))

lemma build_of_perm {contents : List ContentRecord} (h : contents.Perm b.records) :
    CnmtBuilder.build { b with records := contents } = b.build := by
  have hsort : sortOn ContentRecord.key contents = sortOn ContentRecord.key b.records :=
    sortOn_congr_perm (nodup_key hnodup) h
  have hordered : CnmtBuilder.ordered { b with records := contents } = b.ordered := hsort
  simp only [CnmtBuilder.build, CnmtBuilder.header, CnmtBuilder.extendedHeader, hordered]

end Build

/-- A content is refused if and only if its size does not fit or its type is taken. What the accepted ones are
built to describes the title and them, whatever order they came in. -/
theorem build_describes {titleId : UInt64} {titleVersion : UInt32} {calls : List ContentRecord} {built : CnmtBuilder}
    (h : calls.foldlM CnmtBuilder.addContent ((CnmtBuilder.new titleId).setTitleVersion titleVersion) = ok built) :
    (∀ record, (Refused calls record → ∃ e, built.addContent record = err e) ∧
      (¬Refused calls record → ∃ next, built.addContent record = ok next)) ∧
    (∃ cnmt, Cnmt.tryFromBytes built.build = ok cnmt ∧ Describes cnmt titleId titleVersion calls) ∧
    ∀ calls' : List ContentRecord, calls'.Perm calls → ∃ built',
      calls'.foldlM CnmtBuilder.addContent ((CnmtBuilder.new titleId).setTitleVersion titleVersion) = ok built' ∧
        built'.build = built.build := by
  obtain ⟨⟨hsizes, hnodup⟩, rfl⟩ := addContents_new.mp h
  let b : CnmtBuilder := ⟨titleId, titleVersion, calls⟩
  refine ⟨fun record => ⟨addContent_of_refused (b := b), fun h => ⟨_, addContent_of_not_refused (b := b) h⟩⟩,
    ⟨b.view, tryFromBytes_build b hnodup, view_describes b hnodup hsizes⟩, fun calls' hperm => ?_⟩
  have hsizes' : ∀ record ∈ calls', record.size.toNat ≤ 2 ^ 48 - 1 :=
    fun record hmem => hsizes record (hperm.mem_iff.mp hmem)
  have hnodup' := (hperm.map ContentRecord.contentType).nodup_iff.mpr hnodup
  exact ⟨_, addContents_new.mpr ⟨⟨hsizes', hnodup'⟩, rfl⟩, build_of_perm b hnodup hperm⟩

def sampleContent (contentType : CnmtContentType) : ContentRecord where
  hash := List.Vector.replicate 0x20 0xAB
  size := 0xFFFFFFFFFFFF
  contentType := contentType

theorem build_describes_sample : ∃ built built' cnmt,
    [sampleContent .control, sampleContent .program].foldlM CnmtBuilder.addContent
      ((CnmtBuilder.new 0x0100000000001000).setTitleVersion 1) = ok built ∧
    [sampleContent .program, sampleContent .control].foldlM CnmtBuilder.addContent
      ((CnmtBuilder.new 0x0100000000001000).setTitleVersion 1) = ok built' ∧
    built'.build = built.build ∧ Cnmt.tryFromBytes built.build = ok cnmt ∧
    Describes cnmt 0x0100000000001000 1 [sampleContent .control, sampleContent .program] ∧
    ∃ e, built.addContent (sampleContent .program) = err e := by
  obtain ⟨built, hbuilt⟩ : ∃ built, [sampleContent .control, sampleContent .program].foldlM CnmtBuilder.addContent
      ((CnmtBuilder.new 0x0100000000001000).setTitleVersion 1) = ok built := ⟨_, rfl⟩
  obtain ⟨hcalls, ⟨cnmt, hread, hdescribes⟩, horder⟩ := build_describes hbuilt
  obtain ⟨built', hbuilt', hbytes⟩ := horder _ (List.Perm.swap _ _ [])
  refine ⟨built, built', cnmt, hbuilt, hbuilt', hbytes, hread, hdescribes, (hcalls _).1 (Or.inr ?_)⟩
  exact ⟨sampleContent .program, by simp, rfl⟩

end NxObject.ContentMeta
