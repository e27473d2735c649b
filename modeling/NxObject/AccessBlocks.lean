import NxObject.NpdmRoundtrip

/-!
# Access blocks read back

The filesystem access header records where its two lists stand. The service list records nothing but the
length of each name. Here both are read by what they record.
-/
namespace NxObject.ProgramMeta
open Outcome

/-! ## The filesystem access header -/

structure AccessHeader where
  version : UInt32
  permissions : UInt64
  contentOwnerIdOffset : UInt32
  contentOwnerIdSize : UInt32
  saveDataOwnerIdOffset : UInt32
  saveDataOwnerIdSize : UInt32
  deriving DecidableEq, Repr

def AccessHeader.codec : Codec AccessHeader :=
  (Codec.u32.pair <| Codec.u64.pair <| Codec.u32.pair <| Codec.u32.pair <|
    Codec.u32.pair Codec.u32).iso
    { toFun := fun (version, permissions, contentOwnerIdOffset, contentOwnerIdSize, saveDataOwnerIdOffset,
          saveDataOwnerIdSize) =>
        { version, permissions, contentOwnerIdOffset, contentOwnerIdSize, saveDataOwnerIdOffset,
          saveDataOwnerIdSize }
      invFun := fun h => (h.version, h.permissions, h.contentOwnerIdOffset, h.contentOwnerIdSize,
        h.saveDataOwnerIdOffset, h.saveDataOwnerIdSize)
      left_inv := fun _ => rfl
      right_inv := fun _ => rfl }

theorem AccessHeader.codec_size : AccessHeader.codec.size = 0x1C := rfl

/-- A count, and that many IDs. A list without entries has no block at all. -/
def readContentOwners (block : Bytes) : Option (List UInt64) :=
  if block = [] then some []
  else do
    let count ← Codec.u32.fromPrefix block
    Codec.u64.prefixElems count.toNat (block.drop 4)

/-- A count, that many accessibility bytes, padded to a multiple of four, and that many IDs. -/
def readSaveDataOwners (block : Bytes) : Option (List SaveDataOwnerId) :=
  if block = [] then some []
  else do
    let count ← Codec.u32.fromPrefix block
    let accessibility ← Codec.u8.prefixElems count.toNat (block.drop 4)
    let ids ← Codec.u64.prefixElems count.toNat (block.drop (4 + Placement.alignUp 4 count.toNat))
    pure (List.zipWith SaveDataOwnerId.mk accessibility ids)

/-- The block is read back by its header: the two lists stand one behind the other between the header and the
end of the block, and hold the IDs in their order. -/
structure SelfDescribing (fsAccess : FilesystemAccess) (block : Bytes) (header : AccessHeader) : Prop where
  read : AccessHeader.codec.fromPrefix block = some header
  permissions : header.permissions = fsAccess.permissions
  behindHeader : header.contentOwnerIdOffset.toNat = 0x1C
  adjacent : header.contentOwnerIdOffset.toNat + header.contentOwnerIdSize.toNat =
    header.saveDataOwnerIdOffset.toNat
  ends : header.saveDataOwnerIdOffset.toNat + header.saveDataOwnerIdSize.toNat = block.length
  contentOwnerIds : readContentOwners (sliceAt block header.contentOwnerIdOffset.toNat
    header.contentOwnerIdSize.toNat) = some fsAccess.contentOwnerIds
  saveDataOwnerIds : readSaveDataOwners (sliceAt block header.saveDataOwnerIdOffset.toNat
    header.saveDataOwnerIdSize.toNat) = some fsAccess.saveDataOwnerIds

/-- The offset behind the content owner IDs and the size of the save data owner IDs fit their fields. -/
def AccessFits (fsAccess : FilesystemAccess) : Prop :=
  (fsAccess.contentOwnerIds ≠ [] → 0x1C + (4 + fsAccess.contentOwnerIds.length * 8) < 2 ^ 32) ∧
    (fsAccess.saveDataOwnerIds ≠ [] →
      4 + alignFour fsAccess.saveDataOwnerIds.length + fsAccess.saveDataOwnerIds.length * 8 < 2 ^ 32)

section SelfDescribing
variable {ε : Type} {fsAccess : FilesystemAccess}

lemma alignFour_eq {n : ℕ} (h : n + 3 < 2 ^ 64) : alignFour n = Placement.alignUp 4 n := by
  have hk : (2 : ℕ) ≤ 64 := by decide
  exact Placement.and_two_pow_sub hk h

lemma contentOwners_eq_nil : contentOwners fsAccess = [] ↔ fsAccess.contentOwnerIds = [] := by
  rw [contentOwners]
  split_ifs with h <;> simp [h, toLe]

lemma saveDataOwners_eq_nil : saveDataOwners fsAccess = [] ↔ fsAccess.saveDataOwnerIds = [] := by
  rw [saveDataOwners]
  split_ifs with h <;> simp [h, toLe]

lemma contentOwners_length (h : fsAccess.contentOwnerIds ≠ []) :
    (contentOwners fsAccess).length = 4 + fsAccess.contentOwnerIds.length * 8 := by
  rw [contentOwners, if_neg h, List.length_append, toLe_length, Codec.length_flatMap fun _ => toLe_length 8 _]

lemma saveDataOwners_length (h : fsAccess.saveDataOwnerIds ≠ []) :
    (saveDataOwners fsAccess).length = 4 + fsAccess.saveDataOwnerIds.length +
      (alignFour fsAccess.saveDataOwnerIds.length - fsAccess.saveDataOwnerIds.length) +
        fsAccess.saveDataOwnerIds.length * 8 := by
  have hids : (fsAccess.saveDataOwnerIds.flatMap fun entry => toLe 8 entry.id.toNat).length =
      fsAccess.saveDataOwnerIds.length * 8 := Codec.length_flatMap (fun _ => toLe_length 8 _) _
  rw [saveDataOwners, if_neg h]
  simp only [List.length_append, toLe_length, List.length_map, List.length_replicate, hids]

lemma coiSize_eq : coiSize fsAccess = (contentOwners fsAccess).length % 2 ^ 32 := by
  by_cases h : fsAccess.contentOwnerIds = []
  · rw [coiSize, if_pos h, contentOwners_eq_nil.mpr h]
    rfl
  · rw [coiSize, if_neg h, contentOwners_length h]

lemma sdoiSize_le : sdoiSize fsAccess ≤ (saveDataOwners fsAccess).length := by
  by_cases h : fsAccess.saveDataOwnerIds = []
  · rw [sdoiSize, if_pos h]
    exact Nat.zero_le _
  · rw [sdoiSize, if_neg h, saveDataOwners_length h]
    refine (Nat.mod_le _ _).trans ?_
    omega

lemma filesystemAccessHeader_length : (filesystemAccessHeader fsAccess).length =
    0x1C + (contentOwners fsAccess).length + (saveDataOwners fsAccess).length := by
  simp only [filesystemAccessHeader, List.length_append, toLe_length]

def accessHeader (fsAccess : FilesystemAccess) : AccessHeader where
  version := 1
  permissions := fsAccess.permissions
  contentOwnerIdOffset := 0x1C
  contentOwnerIdSize := UInt32.ofNat (coiSize fsAccess)
  saveDataOwnerIdOffset := UInt32.ofNat (0x1C + coiSize fsAccess)
  saveDataOwnerIdSize := UInt32.ofNat (sdoiSize fsAccess)

lemma coiSize_lt : coiSize fsAccess < 2 ^ 32 := by
  rw [coiSize_eq]
  exact Nat.mod_lt _ (by decide)

lemma sdoiSize_lt : sdoiSize fsAccess < 2 ^ 32 := by
  rw [sdoiSize]
  split_ifs
  · decide
  · exact Nat.mod_lt _ (by decide)

lemma filesystemAccessHeader_eq (h : 0x1C + coiSize fsAccess < 2 ^ 32) : filesystemAccessHeader fsAccess =
    AccessHeader.codec.enc (accessHeader fsAccess) ++ (contentOwners fsAccess ++ saveDataOwners fsAccess) := by
  have henc : AccessHeader.codec.enc (accessHeader fsAccess) = toLe 4 1 ++ (toLe 8 fsAccess.permissions.toNat ++
      (toLe 4 0x1C ++ (toLe 4 (UInt32.ofNat (coiSize fsAccess)).toNat ++
        (toLe 4 (UInt32.ofNat (0x1C + coiSize fsAccess)).toNat ++
          toLe 4 (UInt32.ofNat (sdoiSize fsAccess)).toNat)))) := rfl
  rw [henc, UInt32.toNat_ofNat_of_lt' coiSize_lt, UInt32.toNat_ofNat_of_lt' h,
    UInt32.toNat_ofNat_of_lt' sdoiSize_lt, filesystemAccessHeader]
  simp only [List.append_assoc]

lemma buildFilesystemAccessHeader_eq_ok {block : Bytes} :
    (buildFilesystemAccessHeader fsAccess : Outcome ε _) = ok block ↔
      0x1C + coiSize fsAccess < 2 ^ 32 ∧ block = filesystemAccessHeader fsAccess := by
  rw [buildFilesystemAccessHeader_eq_add32, bind_eq_ok]
  constructor
  · rintro ⟨sum, hsum, hblock⟩
    exact ⟨(add32_eq_ok.mp hsum).1, (ok.inj hblock).symm⟩
  · rintro ⟨hlt, rfl⟩
    exact ⟨_, add32_of_lt hlt, rfl⟩

lemma fromPrefix_count {n : ℕ} (h : n < 2 ^ 32) (rest : Bytes) :
    Codec.u32.fromPrefix (toLe 4 n ++ rest) = some (UInt32.ofNat n) := by
  have henc : Codec.u32.enc (UInt32.ofNat n) = toLe 4 n :=
    congrArg (toLe 4) (UInt32.toNat_ofNat_of_lt' h)
  rw [← henc, Codec.fromPrefix_append]

lemma drop_count (n : ℕ) (rest : Bytes) : (toLe 4 n ++ rest).drop 4 = rest :=
  List.drop_left' (toLe_length 4 n)

lemma readContentOwners_eq (h : fsAccess.contentOwnerIds.length < 2 ^ 32) :
    readContentOwners (contentOwners fsAccess) = some fsAccess.contentOwnerIds := by
  by_cases hnil : fsAccess.contentOwnerIds = []
  · rw [readContentOwners, if_pos (contentOwners_eq_nil.mpr hnil), hnil]
  · have hids := Codec.u64.prefixElems_append (rfl : fsAccess.contentOwnerIds.length = _) []
    rw [List.append_nil] at hids
    rw [readContentOwners, if_neg (mt contentOwners_eq_nil.mp hnil), contentOwners, if_neg hnil,
      fromPrefix_count h, drop_count, Option.bind_eq_bind, Option.bind_some, UInt32.toNat_ofNat_of_lt' h]
    exact hids

lemma flatMap_u8 (bytes : Bytes) : bytes.flatMap Codec.u8.enc = bytes := by
  induction bytes with
  | nil => rfl
  | cons b bytes ih =>
    have hb : Codec.u8.enc b = [b] := congrArg ([·]) UInt8.ofNat_toNat
    rw [List.flatMap_cons, ih, hb, List.singleton_append]

lemma readSaveDataOwners_eq (h : fsAccess.saveDataOwnerIds.length < 2 ^ 32) :
    readSaveDataOwners (saveDataOwners fsAccess) = some fsAccess.saveDataOwnerIds := by
  by_cases hnil : fsAccess.saveDataOwnerIds = []
  · rw [readSaveDataOwners, if_pos (saveDataOwners_eq_nil.mpr hnil), hnil]
  · set entries := fsAccess.saveDataOwnerIds with hentries
    have hle : entries.length ≤ Placement.alignUp 4 entries.length := Placement.le_alignUp (by decide) _
    have hfour : entries.length + 3 < 2 ^ 64 := by omega
    have hblock : saveDataOwners fsAccess = toLe 4 entries.length ++
        (entries.map SaveDataOwnerId.accessibility ++
          (List.replicate (Placement.alignUp 4 entries.length - entries.length) 0 ++
            (entries.map SaveDataOwnerId.id).flatMap Codec.u64.enc)) := by
      rw [saveDataOwners, if_neg hnil, ← hentries, alignFour_eq hfour, List.flatMap_map, List.append_assoc,
        List.append_assoc]
      rfl
    have hlenAccess : (entries.map SaveDataOwnerId.accessibility).length = entries.length := List.length_map _
    have hlenIds : (entries.map SaveDataOwnerId.id).length = entries.length := List.length_map _
    have haccess := Codec.u8.prefixElems_append hlenAccess
      (List.replicate (Placement.alignUp 4 entries.length - entries.length) 0 ++
        (entries.map SaveDataOwnerId.id).flatMap Codec.u64.enc)
    rw [flatMap_u8] at haccess
    have hids := Codec.u64.prefixElems_append hlenIds []
    rw [List.append_nil] at hids
    have hdrop : (saveDataOwners fsAccess).drop (4 + Placement.alignUp 4 entries.length) =
        (entries.map SaveDataOwnerId.id).flatMap Codec.u64.enc := by
      rw [hblock, ← List.drop_drop, drop_count, ← List.append_assoc]
      refine List.drop_left' ?_
      rw [List.length_append, hlenAccess, List.length_replicate]
      omega
    have hcount : Codec.u32.fromPrefix (saveDataOwners fsAccess) = some (UInt32.ofNat entries.length) := by
      rw [hblock, fromPrefix_count h]
    have hfront : (saveDataOwners fsAccess).drop 4 = entries.map SaveDataOwnerId.accessibility ++
        (List.replicate (Placement.alignUp 4 entries.length - entries.length) 0 ++
          (entries.map SaveDataOwnerId.id).flatMap Codec.u64.enc) := by rw [hblock, drop_count]
    rw [readSaveDataOwners, if_neg (mt saveDataOwners_eq_nil.mp hnil), hcount, Option.bind_eq_bind,
      Option.bind_some, UInt32.toNat_ofNat_of_lt' h, hfront, haccess, hdrop, Option.bind_eq_bind,
      Option.bind_some, hids, Option.bind_eq_bind, Option.bind_some, List.zipWith_map, List.zipWith_self]
    exact congrArg some (List.map_id _)

lemma coiSize_toNat : (accessHeader fsAccess).contentOwnerIdSize.toNat = coiSize fsAccess :=
  UInt32.toNat_ofNat_of_lt' coiSize_lt

lemma sdoiSize_toNat : (accessHeader fsAccess).saveDataOwnerIdSize.toNat = sdoiSize fsAccess :=
  UInt32.toNat_ofNat_of_lt' sdoiSize_lt

lemma sdoiOffset_toNat (h : 0x1C + coiSize fsAccess < 2 ^ 32) :
    (accessHeader fsAccess).saveDataOwnerIdOffset.toNat = 0x1C + coiSize fsAccess :=
  UInt32.toNat_ofNat_of_lt' h

lemma accessFits_iff : AccessFits fsAccess ↔ 0x1C + coiSize fsAccess < 2 ^ 32 ∧
    coiSize fsAccess = (contentOwners fsAccess).length ∧ sdoiSize fsAccess = (saveDataOwners fsAccess).length := by
  constructor
  · rintro ⟨hcontent, hsave⟩
    have hcoi : 0x1C + (contentOwners fsAccess).length < 2 ^ 32 := by
      by_cases h : fsAccess.contentOwnerIds = []
      · rw [contentOwners_eq_nil.mpr h]
        decide
      · rw [contentOwners_length h]
        exact hcontent h
    have hcoiSize : coiSize fsAccess = (contentOwners fsAccess).length := by
      rw [coiSize_eq, Nat.mod_eq_of_lt (by omega)]
    refine ⟨hcoiSize ▸ hcoi, hcoiSize, ?_⟩
    by_cases h : fsAccess.saveDataOwnerIds = []
    · rw [sdoiSize, if_pos h, saveDataOwners_eq_nil.mpr h]
      rfl
    · have hlt := hsave h
      have hfour : alignFour fsAccess.saveDataOwnerIds.length =
          Placement.alignUp 4 fsAccess.saveDataOwnerIds.length := alignFour_eq (by omega)
      have hle : fsAccess.saveDataOwnerIds.length ≤ Placement.alignUp 4 fsAccess.saveDataOwnerIds.length :=
        Placement.le_alignUp (by decide) _
      rw [sdoiSize, if_neg h, saveDataOwners_length h, Nat.mod_eq_of_lt hlt]
      omega
  · rintro ⟨hlt, hcoi, hsdoi⟩
    refine ⟨fun h => ?_, fun h => ?_⟩
    · rwa [← contentOwners_length h, ← hcoi]
    · have hmod : sdoiSize fsAccess =
          (4 + alignFour fsAccess.saveDataOwnerIds.length + fsAccess.saveDataOwnerIds.length * 8) % 2 ^ 32 := by
        rw [sdoiSize, if_neg h]
      have hlen := saveDataOwners_length h
      omega

lemma contentOwnerIds_length_lt (h : coiSize fsAccess = (contentOwners fsAccess).length) :
    fsAccess.contentOwnerIds.length < 2 ^ 32 := by
  by_cases hnil : fsAccess.contentOwnerIds = []
  · rw [hnil]
    decide
  · have hlen := contentOwners_length hnil
    have hlt : coiSize fsAccess < 2 ^ 32 := coiSize_lt
    omega

lemma saveDataOwnerIds_length_lt (h : sdoiSize fsAccess = (saveDataOwners fsAccess).length) :
    fsAccess.saveDataOwnerIds.length < 2 ^ 32 := by
  by_cases hnil : fsAccess.saveDataOwnerIds = []
  · rw [hnil]
    decide
  · have hlen := saveDataOwners_length hnil
    have hlt : sdoiSize fsAccess < 2 ^ 32 := sdoiSize_lt
    omega

lemma selfDescribing_iff : (∃ block header, (buildFilesystemAccessHeader fsAccess : Outcome ε _) = ok block ∧
    SelfDescribing fsAccess block header) ↔ AccessFits fsAccess := by
  rw [accessFits_iff]
  constructor
  · rintro ⟨block, header, hbuild, h⟩
    obtain ⟨hlt, rfl⟩ := buildFilesystemAccessHeader_eq_ok.mp hbuild
    have hheader : accessHeader fsAccess = header := by
      have hread := h.read
      rw [filesystemAccessHeader_eq hlt, Codec.fromPrefix_append] at hread
      exact Option.some.inj hread
    have hends := h.ends
    rw [← hheader, sdoiOffset_toNat hlt, sdoiSize_toNat, filesystemAccessHeader_length] at hends
    have hcoi : coiSize fsAccess ≤ (contentOwners fsAccess).length := coiSize_eq.trans_le (Nat.mod_le _ _)
    have hsdoi : sdoiSize fsAccess ≤ (saveDataOwners fsAccess).length := sdoiSize_le
    exact ⟨hlt, by omega, by omega⟩
  · rintro ⟨hlt, hcoi, hsdoi⟩
    have hblock := filesystemAccessHeader_eq hlt
    refine ⟨_, accessHeader fsAccess, buildFilesystemAccessHeader_eq_ok.mpr ⟨hlt, rfl⟩, ?_, rfl, rfl, ?_, ?_, ?_, ?_⟩
    · rw [hblock, Codec.fromPrefix_append]
    · rw [coiSize_toNat, sdoiOffset_toNat hlt]
      rfl
    · rw [sdoiOffset_toNat hlt, sdoiSize_toNat, filesystemAccessHeader_length, hcoi, hsdoi]
    · have hslice : sliceAt (filesystemAccessHeader fsAccess) 0x1C (coiSize fsAccess) = contentOwners fsAccess :=
        sliceAt_eq_of_append hblock (AccessHeader.codec.enc_length _) hcoi.symm
      rw [coiSize_toNat]
      exact (congrArg readContentOwners hslice).trans (readContentOwners_eq (contentOwnerIds_length_lt hcoi))
    · have hslice : sliceAt (filesystemAccessHeader fsAccess) (0x1C + coiSize fsAccess) (sdoiSize fsAccess) =
          saveDataOwners fsAccess := by
        rw [← List.append_assoc, ← List.append_nil (saveDataOwners fsAccess), ← List.append_assoc] at hblock
        refine sliceAt_eq_of_append (hblock.trans (List.append_assoc _ _ _)) ?_ hsdoi.symm
        rw [List.length_append, AccessHeader.codec.enc_length, hcoi]
        rfl
      rw [sdoiOffset_toNat hlt, sdoiSize_toNat, hslice]
      exact readSaveDataOwners_eq (saveDataOwnerIds_length_lt hsdoi)

end SelfDescribing

/-! ## The service list -/

/-- Entries up to the end: the control byte holds the length of the name less one, and the flag of a host
in bit 7. -/
def scanServices (block : Bytes) : Option (List (Text × Bool)) :=
  match block with
  | [] => some []
  | control :: rest =>
    let len := control.toNat % 128 + 1
    if len ≤ rest.length then do
      let name ← fromUtf8 (rest.take len)
      let services ← scanServices (rest.drop len)
      pure ((name, decide (128 ≤ control.toNat)) :: services)
    else none
  termination_by block.length
  decreasing_by simp only [List.length_drop, List.length_cons]; omega

lemma control_toNat {len : ℕ} (hlen : len < 128) (isHost : Bool) :
    (if isHost then UInt8.ofNat len ||| 0x80 else UInt8.ofNat len).toNat = len + if isHost then 128 else 0 := by
  have hcut : (UInt8.ofNat len).toNat = len := UInt8.toNat_ofNat_of_lt' (hlen.trans (by decide))
  cases isHost with
  | false => exact hcut
  | true =>
    have hor := Nat.two_pow_add_eq_or_of_lt (show len < 2 ^ 7 by omega) 1
    rw [if_pos rfl, if_pos rfl, UInt8.toNat_or, hcut, Nat.or_comm]
    exact hor.symm.trans (Nat.add_comm _ _)

lemma scanServices_entry {name : Text} (hpos : 1 ≤ (utf8 name).length) (hle : (utf8 name).length ≤ 8)
    (isHost : Bool) (services : List (Text × Bool)) :
    scanServices (buildServiceAccessControl ⟨(name, isHost) :: services⟩) =
      (scanServices (buildServiceAccessControl ⟨services⟩)).map ((name, isHost) :: ·) := by
  obtain ⟨control, hcontrol⟩ : ∃ control, control = if isHost then
    UInt8.ofNat ((utf8 name).length - 1) ||| 0x80 else UInt8.ofNat ((utf8 name).length - 1) := ⟨_, rfl⟩
  have hentry : buildServiceAccessControl ⟨(name, isHost) :: services⟩ =
      control :: (utf8 name ++ buildServiceAccessControl ⟨services⟩) := by
    rw [hcontrol, buildServiceAccessControl, List.flatMap_cons]
    simp only [Nat.min_eq_left hle, Nat.ne_of_gt hpos, if_false, List.take_length]
    rfl
  have hnat : control.toNat = (utf8 name).length - 1 + if isHost then 128 else 0 := by
    rw [hcontrol, control_toNat (by omega)]
  have hlen : control.toNat % 128 + 1 = (utf8 name).length := by
    rw [hnat]
    split_ifs <;> omega
  have hhost : decide (128 ≤ control.toNat) = isHost := by
    rw [hnat]
    cases isHost
    · exact decide_eq_false (by rw [if_neg (by decide)]; omega)
    · exact decide_eq_true (by rw [if_pos rfl]; omega)
  rw [hentry, scanServices, hlen, if_pos (by simp), List.take_left, List.drop_left, fromUtf8_utf8, hhost]
  cases scanServices (buildServiceAccessControl ⟨services⟩) <;> rfl

lemma scanServices_build {services : List (Text × Bool)}
    (hnames : ∀ service ∈ services, 1 ≤ (utf8 service.1).length ∧ (utf8 service.1).length ≤ 8) :
    scanServices (buildServiceAccessControl ⟨services⟩) = some services := by
  induction services with
  | nil => rw [buildServiceAccessControl, List.flatMap_nil, scanServices]
  | cons service services ih =>
    obtain ⟨hpos, hle⟩ := hnames service List.mem_cons_self
    rw [scanServices_entry hpos hle, ih fun s hs => hnames s (List.mem_cons_of_mem _ hs)]
    rfl


/-- The filesystem access header is read back by its own records exactly if these fit their fields, and a list
of services with names of one to eight bytes is scanned to its end. -/
theorem accessBlocks_selfDescribing {ε : Type} (fsAccess : FilesystemAccess) (sac : ServiceAccess)
    (hnames : ∀ service ∈ sac.services, 1 ≤ (utf8 service.1).length ∧ (utf8 service.1).length ≤ 8) :
    ((∃ block header, (buildFilesystemAccessHeader fsAccess : Outcome ε _) = ok block ∧
      SelfDescribing fsAccess block header) ↔ AccessFits fsAccess) ∧
    scanServices (buildServiceAccessControl sac) = some sac.services :=
  ⟨selfDescribing_iff, scanServices_build hnames⟩

theorem accessBlocks_selfDescribing_sample :
    ((∃ block header, (buildFilesystemAccessHeader ⟨7, [1, 2], [⟨3, 4⟩], 0, 0, 0, 0⟩ : Outcome Empty _) = ok block ∧
      SelfDescribing ⟨7, [1, 2], [⟨3, 4⟩], 0, 0, 0, 0⟩ block header) ↔
        AccessFits ⟨7, [1, 2], [⟨3, 4⟩], 0, 0, 0, 0⟩) ∧
    scanServices (buildServiceAccessControl ⟨[("fsp-srv".toList, false), ("sm:".toList, true)]⟩) =
      some [("fsp-srv".toList, false), ("sm:".toList, true)] :=
  accessBlocks_selfDescribing ⟨7, [1, 2], [⟨3, 4⟩], 0, 0, 0, 0⟩
    ⟨[("fsp-srv".toList, false), ("sm:".toList, true)]⟩ (by decide)

def manyOwners : FilesystemAccess := { contentOwnerIds := List.replicate (2 ^ 29) 0 }

lemma manyOwners_length : manyOwners.contentOwnerIds.length = 2 ^ 29 := List.length_replicate

/-- Their count fits its field, but the size of the list is recorded as 4: the block is not described. -/
theorem manyOwners_not_selfDescribing :
    manyOwners.contentOwnerIds.length < 2 ^ 32 ∧ manyOwners.saveDataOwnerIds.length < 2 ^ 32 ∧
      ¬∃ block header, (buildFilesystemAccessHeader manyOwners : Outcome Empty _) = ok block ∧
        SelfDescribing manyOwners block header := by
  refine ⟨?_, by decide, fun h => ?_⟩
  · rw [manyOwners_length]
    decide
  · have hne : manyOwners.contentOwnerIds ≠ [] := by
      intro hnil
      have hlen := manyOwners_length
      rw [hnil] at hlen
      exact absurd hlen (by decide)
    have hfits := (selfDescribing_iff.mp h).1 hne
    rw [manyOwners_length] at hfits
    exact absurd hfits (by decide)

end NxObject.ProgramMeta
