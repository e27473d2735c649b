import NxObject.Nacp

/-!
# Titles and their languages

Eighteen languages share sixteen slots. Both tables that map the one to the other agree, so what the last
call for a slot has set is what the reader finds there.
-/
namespace NxObject.Control
open Outcome

lemma languageTable_eq (lang : SetLanguage) :
    ∃ i : Fin 16, languageToIndex lang = some i ∧ (LANGUAGE_TABLE[lang.ctorIdx]?).getD 0 = i := by
  cases lang <;> exact ⟨_, rfl, rfl⟩

/-! ## Last writers -/

def titleFor (i : Fin 16) : Call → Option Text
  | .name name => some name
  | .nameForLanguage lang name => if languageToIndex lang = some i then some name else none
  | _ => none

def authorFor (i : Fin 16) : Call → Option Text
  | .author author => some author
  | .authorForLanguage lang author => if languageToIndex lang = some i then some author else none
  | _ => none

def versionFor : Call → Option Text
  | .version version => some version
  | _ => none

def applicationIdFor : Call → Option UInt64
  | .applicationId id => some id
  | _ => none

section Calls
variable (calls : List Call) (i : Fin 16)

/-- The title that the last call for the slot has given to it. -/
def lastTitle : Option Text := (calls.filterMap (titleFor i)).getLast?

def lastAuthor : Option Text := (calls.filterMap (authorFor i)).getLast?

def lastVersion : Option Text := (calls.filterMap versionFor).getLast?

def lastApplicationId : Option UInt64 := (calls.filterMap applicationIdFor).getLast?

end Calls

section Call
variable (b : NacpBuilder) (lang : SetLanguage) (text : Text) (c : Call) (i : Fin 16)

lemma update_slot (texts : Fin 16 → Option Text) {j : Fin 16} (hj : languageToIndex lang = some j) :
    Function.update texts j (some text) = fun i => if languageToIndex lang = some i then some text else texts i := by
  funext i
  rw [Function.update_apply]
  exact if_congr (by rw [hj, Option.some.injEq, eq_comm]) rfl rfl

lemma nameForLanguage_eq : b.call (.nameForLanguage lang text) =
    { b with names := fun i => if languageToIndex lang = some i then some text else b.names i } := by
  obtain ⟨j, hj, -⟩ := languageTable_eq lang
  rw [← update_slot lang text b.names hj, NacpBuilder.call, NacpBuilder.nameForLanguage, hj]

lemma authorForLanguage_eq : b.call (.authorForLanguage lang text) =
    { b with authors := fun i => if languageToIndex lang = some i then some text else b.authors i } := by
  obtain ⟨j, hj, -⟩ := languageTable_eq lang
  rw [← update_slot lang text b.authors hj, NacpBuilder.call, NacpBuilder.authorForLanguage, hj]

lemma call_names : (b.call c).names i = (titleFor i c).or (b.names i) := by
  cases c with
  | nameForLanguage lang name =>
    rw [nameForLanguage_eq, titleFor]
    change (if languageToIndex lang = some i then some name else b.names i) = _
    split_ifs <;> rfl
  | authorForLanguage lang author =>
    rw [authorForLanguage_eq]
    rfl
  | _ => rfl

lemma call_authors : (b.call c).authors i = (authorFor i c).or (b.authors i) := by
  cases c with
  | nameForLanguage lang name =>
    rw [nameForLanguage_eq]
    rfl
  | authorForLanguage lang author =>
    rw [authorForLanguage_eq, authorFor]
    change (if languageToIndex lang = some i then some author else b.authors i) = _
    split_ifs <;> rfl
  | _ => rfl

lemma call_displayVersion : (b.call c).displayVersion = (versionFor c).or b.displayVersion := by
  cases c with
  | nameForLanguage lang name =>
    rw [nameForLanguage_eq]
    rfl
  | authorForLanguage lang author =>
    rw [authorForLanguage_eq]
    rfl
  | _ => rfl

lemma call_applicationId : (b.call c).applicationId = (applicationIdFor c).or b.applicationId := by
  cases c with
  | nameForLanguage lang name =>
    rw [nameForLanguage_eq]
    rfl
  | authorForLanguage lang author =>
    rw [authorForLanguage_eq]
    rfl
  | _ => rfl

end Call

section Reached
variable (calls : List Call) (i : Fin 16)

lemma reached_names : (NacpBuilder.reached calls).names i = lastTitle calls i :=
  (foldl_lastWritten (fun b : NacpBuilder => b.names i) (fun b c => call_names b c i) calls .new).trans
    Option.or_none

lemma reached_authors : (NacpBuilder.reached calls).authors i = lastAuthor calls i :=
  (foldl_lastWritten (fun b : NacpBuilder => b.authors i) (fun b c => call_authors b c i) calls .new).trans
    Option.or_none

lemma reached_displayVersion : (NacpBuilder.reached calls).displayVersion = lastVersion calls :=
  (foldl_lastWritten NacpBuilder.displayVersion call_displayVersion calls .new).trans Option.or_none

lemma reached_applicationId : (NacpBuilder.reached calls).applicationId = lastApplicationId calls :=
  (foldl_lastWritten NacpBuilder.applicationId call_applicationId calls .new).trans Option.or_none

end Reached

/-! ## What is built -/

structure TextsFit (names authors : Fin 16 → Option Text) (version : Option Text) : Prop where
  names : ∀ i s, names i = some s → (utf8 s).length < 0x200
  authors : ∀ i s, authors i = some s → (utf8 s).length < 0x100
  version : ∀ s, version = some s → (utf8 s).length < 0x10

lemma fillText_eq_ok {n : ℕ} {tooLong : ℕ → BuildError} {text : Option Text} {v : List.Vector UInt8 n} :
    NacpBuilder.fillText (zeroFilled n []) tooLong text = ok v ↔
      (∀ s, text = some s → (utf8 s).length < n) ∧ v = zeroFilled n (utf8 (text.getD [])) := by
  cases text with
  | none =>
    rw [NacpBuilder.fillText, ok.injEq, eq_comm, Option.getD_none, utf8_nil]
    exact ⟨fun h => ⟨nofun, h⟩, And.right⟩
  | some s =>
    simp only [NacpBuilder.fillText, Option.some.injEq, forall_eq', Option.getD_some]
    constructor
    · intro h
      obtain ⟨_, hfits, h⟩ := bind_eq_ok.mp h
      have hlt := ensure_eq_ok.mp hfits
      rw [copyFromSlice_zeroFilled_nil hlt.le, ok_bind, exactly_of_length (zeroFilled n (utf8 s)).toList_length] at h
      exact ⟨hlt, (ok.inj h).symm⟩
    · rintro ⟨hlt, rfl⟩
      rw [ensure_true hlt, ok_bind, copyFromSlice_zeroFilled_nil hlt.le, ok_bind,
        exactly_of_length (zeroFilled n (utf8 s)).toList_length]
      rfl

def entryOf (title author : Option Text) : NacpLanguageEntry :=
  { name := zeroFilled 0x200 (utf8 (title.getD [])), author := zeroFilled 0x100 (utf8 (author.getD [])) }

section Build
variable {b : NacpBuilder}

lemma fillEntry_eq_ok {i : Fin 16} {entry : NacpLanguageEntry} :
    b.fillEntry i (entryOf none none) = ok entry ↔
      ((∀ s, b.names i = some s → (utf8 s).length < 0x200) ∧
        ∀ s, b.authors i = some s → (utf8 s).length < 0x100) ∧
        entry = entryOf (b.names i) (b.authors i) := by
  constructor
  · intro h
    obtain ⟨name, hname, h⟩ := bind_eq_ok.mp h
    obtain ⟨author, hauthor, h⟩ := bind_eq_ok.mp h
    obtain ⟨hnamefits, rfl⟩ := fillText_eq_ok.mp hname
    obtain ⟨hauthorfits, rfl⟩ := fillText_eq_ok.mp hauthor
    exact ⟨⟨hnamefits, hauthorfits⟩, (ok.inj h).symm⟩
  · rintro ⟨⟨hname, hauthor⟩, rfl⟩
    exact bind_eq_ok.mpr ⟨_, fillText_eq_ok.mpr ⟨hname, rfl⟩, bind_eq_ok.mpr
      ⟨_, fillText_eq_ok.mpr ⟨hauthor, rfl⟩, rfl⟩⟩

lemma fillEntries_eq_ok {entries : Fin 16 → NacpLanguageEntry} :
    (List.finRange 16).foldlM (fun lang i =>
      b.fillEntry i (lang i) >>= fun entry => ok (Function.update lang i entry)) (fun _ => entryOf none none) =
        ok entries ↔
      ((∀ i s, b.names i = some s → (utf8 s).length < 0x200) ∧
        ∀ i s, b.authors i = some s → (utf8 s).length < 0x100) ∧
        entries = fun i => entryOf (b.names i) (b.authors i) := by
  rw [foldlM_update_eq_ok (List.nodup_finRange 16)]
  simp only [List.mem_finRange, true_implies, fillEntry_eq_ok, forall_and, not_true_eq_false, false_implies,
    implies_true, and_true, funext_iff]

lemma zeroedEntry (m : ℕ) : NacpLanguageEntry.codec.dec (List.replicate m 0) = entryOf none none := by
  have hdec : NacpLanguageEntry.codec.dec (List.replicate m 0) =
      { name := zeroFilled 0x200 (List.replicate m 0)
        author := zeroFilled 0x100 ((List.replicate m 0).drop 0x200) } := rfl
  rw [hdec, List.drop_replicate, zeroFilled_zeroes, zeroFilled_zeroes]
  rfl

def zeroed : NacpStruct := NacpStruct.codec.dec (List.replicate 0x4000 0)

lemma fromBytes_zeroes : NacpStruct.codec.fromBytes (List.replicate 0x4000 0) = some zeroed :=
  if_pos (List.length_replicate.trans NacpStruct.codec_size.symm)

lemma zeroed_lang : zeroed.lang = fun _ => entryOf none none := by
  funext i
  change NacpLanguageEntry.codec.dec ((List.replicate 0x4000 0).drop _) = _
  rw [List.drop_replicate]
  exact zeroedEntry _

lemma zeroed_displayVersion : zeroed.displayVersion = zeroFilled 0x10 [] := by
  change (Codec.bytes 0x10).dec _ = _
  simp only [List.drop_replicate]
  exact zeroFilled_zeroes _

def NacpBuilder.filled (b : NacpBuilder) : NacpStruct :=
  withDefaults { zeroed with
    lang := fun i => entryOf (b.names i) (b.authors i)
    displayVersion := zeroFilled 0x10 (utf8 (b.displayVersion.getD [])) }

lemma build_eq_ok {image : Bytes} : b.build = ok image ↔
    TextsFit b.names b.authors b.displayVersion ∧
      ∃ nacp, NacpBuilder.withApplicationId b.filled b.applicationId = ok nacp ∧
        image = NacpStruct.codec.enc (b.withSaveData nacp) := by
  rw [NacpBuilder.build, fromBytes_zeroes, okOr_some, ok_bind, zeroed_lang, zeroed_displayVersion]
  constructor
  · intro h
    obtain ⟨lang, hlang, h⟩ := bind_eq_ok.mp h
    obtain ⟨version, hversion, h⟩ := bind_eq_ok.mp h
    obtain ⟨nacp, hnacp, himage⟩ := bind_eq_ok.mp h
    obtain ⟨⟨hnames, hauthors⟩, rfl⟩ := fillEntries_eq_ok.mp hlang
    obtain ⟨hversionfits, rfl⟩ := fillText_eq_ok.mp hversion
    exact ⟨⟨hnames, hauthors, hversionfits⟩, nacp, hnacp, (ok.inj himage).symm⟩
  · rintro ⟨hfits, nacp, hnacp, rfl⟩
    exact bind_eq_ok.mpr ⟨_, fillEntries_eq_ok.mpr ⟨⟨hfits.names, hfits.authors⟩, rfl⟩, bind_eq_ok.mpr
      ⟨_, fillText_eq_ok.mpr ⟨hfits.version, rfl⟩, bind_eq_ok.mpr ⟨nacp, hnacp, rfl⟩⟩⟩

lemma withApplicationId_exists {nacp : NacpStruct} {id : Option UInt64} :
    (∃ nacp', NacpBuilder.withApplicationId nacp id = ok nacp') ↔
      ∀ i, id = some i → i.toNat + 0x1000 < 2 ^ 64 := by
  cases id with
  | none => exact iff_of_true ⟨nacp, rfl⟩ nofun
  | some id =>
    simp only [Option.some.injEq, forall_eq']
    constructor
    · rintro ⟨nacp', h⟩
      obtain ⟨base, hbase, -⟩ := bind_eq_ok.mp h
      exact (add_eq_ok.mp hbase).1
    · intro hlt
      exact ⟨_, bind_eq_ok.mpr ⟨_, add_of_lt hlt, rfl⟩⟩

lemma withApplicationId_frame {nacp nacp' : NacpStruct} {id : Option UInt64}
    (h : NacpBuilder.withApplicationId nacp id = ok nacp') : nacp'.lang = nacp.lang ∧
      nacp'.displayVersion = nacp.displayVersion ∧ nacp'.supportedLanguageFlag = nacp.supportedLanguageFlag := by
  cases id with
  | none =>
    obtain rfl := ok.inj h
    exact ⟨rfl, rfl, rfl⟩
  | some id =>
    obtain ⟨base, -, h⟩ := bind_eq_ok.mp h
    obtain rfl := ok.inj h
    exact ⟨rfl, rfl, rfl⟩

lemma build_exists (hid : ∀ id, b.applicationId = some id → id.toNat ≤ 2 ^ 64 - 1 - 0x1000) :
    (∃ image, b.build = ok image) ↔ TextsFit b.names b.authors b.displayVersion := by
  constructor
  · rintro ⟨image, h⟩
    exact (build_eq_ok.mp h).1
  · intro hfits
    obtain ⟨nacp, hnacp⟩ := withApplicationId_exists.mpr fun id hsome =>
      (Nat.add_le_add_right (hid id hsome) 0x1000).trans_lt (by decide)
    exact ⟨_, build_eq_ok.mpr ⟨hfits, nacp, hnacp, rfl⟩⟩

lemma tryFromBytes_enc (raw : NacpStruct) : Nacp.tryFromBytes (NacpStruct.codec.enc raw) = ok ⟨raw⟩ := by
  rw [Nacp.tryFromBytes, ensure_true (NacpStruct.codec.enc_length raw).ge, ok_bind, Codec.fromPrefix_enc]
  rfl

lemma build_reads {image : Bytes} (h : b.build = ok image) : ∃ nacp, Nacp.tryFromBytes image = ok nacp ∧
    (∀ i, nacp.raw.lang i = entryOf (b.names i) (b.authors i)) ∧
      nacp.raw.displayVersion = zeroFilled 0x10 (utf8 (b.displayVersion.getD [])) ∧
      nacp.raw.supportedLanguageFlag = 0xFFFF := by
  obtain ⟨-, nacp, hnacp, rfl⟩ := build_eq_ok.mp h
  obtain ⟨hlang, hversion, hflag⟩ := withApplicationId_frame hnacp
  exact ⟨_, tryFromBytes_enc _, congrFun hlang, hversion, hflag⟩

end Build

/-! ## What is found -/

/-- A title that is set and does not begin with the terminator. -/
def Populated (title : Option Text) : Prop := ∃ s, title = some s ∧ s ≠ [] ∧ s.head? ≠ some '\x00'

lemma headD_utf8_ne_zero_iff (s : Text) : (utf8 s).headD 0 ≠ 0 ↔ s ≠ [] ∧ s.head? ≠ some '\x00' := by
  cases s with
  | nil => exact iff_of_false (fun h => h rfl) fun h => h.1 rfl
  | cons c s =>
    have hfirst : (utf8 (c :: s)).headD 0 = (String.utf8EncodeChar c).headD 0 ∧
        (String.utf8EncodeChar c).headD 0 ∈ String.utf8EncodeChar c := by
      have hpos : 0 < (String.utf8EncodeChar c).length := by
        rw [String.length_utf8EncodeChar]
        exact Char.utf8Size_pos c
      rw [utf8, List.flatMap_cons]
      cases hc : String.utf8EncodeChar c with
      | nil => exact absurd hpos (by rw [hc]; exact lt_irrefl 0)
      | cons b bs => exact ⟨rfl, List.mem_cons_self⟩
    rw [hfirst.1, and_iff_right (List.cons_ne_nil c s), List.head?_cons, Ne, Ne, Option.some.injEq, not_iff_not]
    constructor
    · intro h
      exact zero_mem_utf8EncodeChar (h ▸ hfirst.2)
    · rintro rfl
      decide

section Reader
variable {nacp : Nacp} {names authors : Fin 16 → Option Text}
  (hlang : ∀ i, nacp.raw.lang i = entryOf (names i) (authors i)) (i : Fin 16)
include hlang

lemma head_ne_zero_iff : (nacp.raw.lang i).name.head ≠ 0 ↔ Populated (names i) := by
  rw [hlang, entryOf, zeroFilled_head, headD_utf8_ne_zero_iff]
  cases names i with
  | none => exact iff_of_false (fun h => h.1 rfl) nofun
  | some s => simp only [Populated, Option.getD_some, Option.some.injEq, exists_eq_left']

lemma languageEntry_of_populated (h : Populated (names i)) : nacp.languageEntry i = some (nacp.raw.lang i) := by
  rw [Nacp.languageEntry, dif_pos i.isLt]
  exact if_neg ((head_ne_zero_iff hlang i).mpr h)

lemma languageEntry_of_not_populated (h : ¬Populated (names i)) : nacp.languageEntry i = none := by
  rw [Nacp.languageEntry, dif_pos i.isLt]
  exact if_pos (not_not.mp fun hne => h ((head_ne_zero_iff hlang i).mp hne))

lemma languageEntry_isSome_iff : (nacp.languageEntry i).isSome ↔ Populated (names i) := by
  by_cases h : Populated (names i)
  · exact iff_of_true (by rw [languageEntry_of_populated hlang i h]; rfl) h
  · exact iff_of_false (by rw [languageEntry_of_not_populated hlang i h]; exact Bool.false_ne_true) h

lemma languageEntryFor_fallback {lang : SetLanguage} (hslot : languageToIndex lang = some i)
    (hown : ¬Populated (names i)) :
    (∃ j, Populated (names j) ∧ (∀ k < j, ¬Populated (names k)) ∧
      nacp.languageEntryFor lang = some (nacp.raw.lang j)) ∨
    (∀ j, ¬Populated (names j)) ∧ nacp.languageEntryFor lang = none := by
  obtain ⟨i', hslot', htable⟩ := languageTable_eq lang
  obtain rfl : i = i' := Option.some.inj (hslot.symm.trans hslot')
  have hfor : nacp.languageEntryFor lang = (List.range 16).findSome? nacp.languageEntry := by
    rw [Nacp.languageEntryFor, htable, languageEntry_of_not_populated hlang i hown]
  rw [hfor]
  rcases findSome?_range nacp.languageEntry 16 with ⟨j, hj, hsome, hfirst, hfind⟩ | ⟨hnone, hfind⟩
  · have hpopulated := (languageEntry_isSome_iff hlang ⟨j, hj⟩).mp hsome
    refine Or.inl ⟨⟨j, hj⟩, hpopulated, fun k hk hpop => ?_, ?_⟩
    · exact nomatch (hfirst k hk).symm.trans (languageEntry_of_populated hlang k hpop)
    · rw [hfind]
      exact languageEntry_of_populated hlang ⟨j, hj⟩ hpopulated
  · refine Or.inr ⟨fun j hpop => ?_, hfind⟩
    exact nomatch (hnone j j.isLt).symm.trans (languageEntry_of_populated hlang j hpop)

lemma languageEntryFor_own {lang : SetLanguage} (hslot : languageToIndex lang = some i) (hown : Populated (names i)) :
    nacp.languageEntryFor lang = some (nacp.raw.lang i) := by
  obtain ⟨i', hslot', htable⟩ := languageTable_eq lang
  obtain rfl : i = i' := Option.some.inj (hslot.symm.trans hslot')
  rw [Nacp.languageEntryFor, htable, languageEntry_of_populated hlang i hown]

end Reader

/-- The entry holds both texts with zeroes behind them. -/
def HoldsTexts (entry : NacpLanguageEntry) (title author : Text) : Prop :=
  entry.name.toList = utf8 title ++ List.replicate (0x200 - (utf8 title).length) 0 ∧
    entry.author.toList = utf8 author ++ List.replicate (0x100 - (utf8 author).length) 0

lemma entryOf_holdsTexts {title author : Option Text} (htitle : ∀ s, title = some s → (utf8 s).length < 0x200)
    (hauthor : ∀ s, author = some s → (utf8 s).length < 0x100) :
    HoldsTexts (entryOf title author) (title.getD []) (author.getD []) := by
  refine ⟨zeroFilled_toList ?_, zeroFilled_toList ?_⟩
  · cases title with
    | none => exact Nat.zero_le _
    | some s => exact (htitle s rfl).le
  · cases author with
    | none => exact Nat.zero_le _
    | some s => exact (hauthor s rfl).le

lemma reached_build_exists {calls : List Call}
    (hid : ∀ id, lastApplicationId calls = some id → id.toNat ≤ 2 ^ 64 - 1 - 0x1000) :
    (∃ image, (NacpBuilder.reached calls).build = ok image) ↔
      TextsFit (lastTitle calls) (lastAuthor calls) (lastVersion calls) := by
  have hnames : (NacpBuilder.reached calls).names = lastTitle calls := funext (reached_names calls)
  have hauthors : (NacpBuilder.reached calls).authors = lastAuthor calls := funext (reached_authors calls)
  rw [← reached_applicationId] at hid
  rw [build_exists hid, hnames, hauthors, reached_displayVersion]

/-- A control structure is built if and only if its texts fit. Every language is then shown the title that the
last call for its slot has set, or the first title that there is. -/
theorem languageEntryFor_lastTitle (calls : List Call)
    (hid : ∀ id, lastApplicationId calls = some id → id.toNat ≤ 2 ^ 64 - 1 - 0x1000) :
    ((∃ image, (NacpBuilder.reached calls).build = ok image) ↔
      TextsFit (lastTitle calls) (lastAuthor calls) (lastVersion calls)) ∧
    ∀ image, (NacpBuilder.reached calls).build = ok image → ∃ nacp, Nacp.tryFromBytes image = ok nacp ∧
      (∀ i, HoldsTexts (nacp.raw.lang i) ((lastTitle calls i).getD []) ((lastAuthor calls i).getD [])) ∧
      ∀ lang, ∃ i, languageToIndex lang = some i ∧
        (Populated (lastTitle calls i) → nacp.languageEntryFor lang = some (nacp.raw.lang i)) ∧
        (¬Populated (lastTitle calls i) →
          (∃ j, Populated (lastTitle calls j) ∧ (∀ k < j, ¬Populated (lastTitle calls k)) ∧
            nacp.languageEntryFor lang = some (nacp.raw.lang j)) ∨
          (∀ j, ¬Populated (lastTitle calls j)) ∧ nacp.languageEntryFor lang = none) := by
  have hnames : (NacpBuilder.reached calls).names = lastTitle calls := funext (reached_names calls)
  have hauthors : (NacpBuilder.reached calls).authors = lastAuthor calls := funext (reached_authors calls)
  refine ⟨reached_build_exists hid, fun image himage => ?_⟩
  have hfits := (build_eq_ok.mp himage).1
  obtain ⟨nacp, hread, hlang, -, -⟩ := build_reads himage
  rw [hnames, hauthors] at hfits hlang
  refine ⟨nacp, hread, fun i => ?_, fun lang => ?_⟩
  · rw [hlang]
    exact entryOf_holdsTexts (hfits.names i) (hfits.authors i)
  · obtain ⟨i, hslot, -⟩ := languageTable_eq lang
    exact ⟨i, hslot, languageEntryFor_own hlang i hslot, languageEntryFor_fallback hlang i hslot⟩

def sampleCalls : List Call := [.name ['A'], .nameForLanguage .ko ['B'], .applicationId 1]

theorem languageEntryFor_lastTitle_sample : ∃ image nacp,
    (NacpBuilder.reached sampleCalls).build = ok image ∧ Nacp.tryFromBytes image = ok nacp ∧
      nacp.languageEntryFor .ko = some (nacp.raw.lang 12) ∧ HoldsTexts (nacp.raw.lang 12) ['B'] [] := by
  have hid : ∀ id, lastApplicationId sampleCalls = some id → id.toNat ≤ 2 ^ 64 - 1 - 0x1000 := by
    rintro _ ⟨⟩
    decide
  obtain ⟨hbuild, hread⟩ := languageEntryFor_lastTitle sampleCalls hid
  have htitles : ∀ i, ∀ s ∈ lastTitle sampleCalls i, (utf8 s).length < 0x200 := by decide
  obtain ⟨image, himage⟩ := hbuild.mpr ⟨htitles, nofun, nofun⟩
  obtain ⟨nacp, hnacp, hholds, hlang⟩ := hread image himage
  obtain ⟨i, hi, hown, -⟩ := hlang .ko
  obtain rfl : 12 = i := Option.some.inj hi
  exact ⟨image, nacp, himage, hnacp, hown ⟨['B'], rfl, by decide⟩, hholds 12⟩

/-! ## The mask of languages -/

/-- The mask of the languages matches the entries if and only if every slot has a title. -/
theorem supportedLanguageFlag_iff (calls : List Call) {image : Bytes}
    (hbuild : (NacpBuilder.reached calls).build = ok image) : ∃ nacp, Nacp.tryFromBytes image = ok nacp ∧
      ((∀ i < 16, nacp.raw.supportedLanguageFlag.toNat.testBit i ↔ (nacp.languageEntry i).isSome) ↔
        ∀ i, Populated (lastTitle calls i)) := by
  obtain ⟨nacp, hread, hlang, -, hflag⟩ := build_reads hbuild
  have hbit : ∀ i < 16, nacp.raw.supportedLanguageFlag.toNat.testBit i = true := by
    rw [hflag]
    decide
  refine ⟨nacp, hread, fun h i => ?_, fun h i hi => ?_⟩
  · rw [← reached_names]
    exact (languageEntry_isSome_iff hlang i).mp ((h i i.isLt).mp (hbit i i.isLt))
  · refine iff_of_true (hbit i hi) ((languageEntry_isSome_iff hlang ⟨i, hi⟩).mpr ?_)
    rw [reached_names]
    exact h ⟨i, hi⟩

theorem supportedLanguageFlag_iff_everyLanguage : ∃ image nacp,
    (NacpBuilder.reached [.name ['A']]).build = ok image ∧ Nacp.tryFromBytes image = ok nacp ∧
      ∀ i < 16, nacp.raw.supportedLanguageFlag.toNat.testBit i ↔ (nacp.languageEntry i).isSome := by
  have htitles : ∀ i, ∀ s ∈ lastTitle [.name ['A']] i, (utf8 s).length < 0x200 := by decide
  obtain ⟨image, himage⟩ := (reached_build_exists (by rintro _ ⟨⟩)).mpr ⟨htitles, nofun, nofun⟩
  obtain ⟨nacp, hread, hiff⟩ := supportedLanguageFlag_iff [.name ['A']] himage
  exact ⟨image, nacp, himage, hread, hiff.mpr fun i => ⟨['A'], rfl, by decide⟩⟩

/-- A title for Korean alone sets the bits of all languages. -/
theorem oneTitle_flagged : ∃ image nacp,
    (NacpBuilder.reached [.nameForLanguage .ko ['A']]).build = ok image ∧ Nacp.tryFromBytes image = ok nacp ∧
      nacp.raw.supportedLanguageFlag.toNat.testBit 0 = true ∧ nacp.languageEntry 0 = none := by
  have htitles : ∀ i, ∀ s ∈ lastTitle [.nameForLanguage .ko ['A']] i, (utf8 s).length < 0x200 := by decide
  obtain ⟨image, himage⟩ := (reached_build_exists (by rintro _ ⟨⟩)).mpr ⟨htitles, nofun, nofun⟩
  obtain ⟨nacp, hread, hlang, -, hflag⟩ := build_reads himage
  refine ⟨image, nacp, himage, hread, by rw [hflag]; decide, languageEntry_of_not_populated hlang 0 ?_⟩
  rw [reached_names]
  rintro ⟨s, hs, -⟩
  cases hs

end NxObject.Control
