import NxObject.Outcome

/-!
# Chains of linked entries

Entries that are read from a position and name the position of the next one. Whether a walk along such
a chain ends is a question about the orbit of its start; the entries it visits, if it does, are what the
chain spells.
-/
namespace NxObject.Chain
open Outcome

section Orbit
variable {ι : Type} (f : ι → Option ι)

/-- Where `n` steps lead, if there are that many. -/
def orbit : ℕ → ι → Option ι
  | 0, o => some o
  | n + 1, o => (f o).bind (orbit n)

lemma orbit_add (m n : ℕ) (o : ι) : orbit f (m + n) o = (orbit f m o).bind (orbit f n) := by
  induction m generalizing o with
  | zero => simp [orbit]
  | succ m ih =>
    rw [Nat.succ_add]
    simp only [orbit, Option.bind_assoc]
    congr 1
    funext o'
    exact ih o'

lemma orbit_none_of_le {m n : ℕ} {o : ι} (h : orbit f m o = none) (hle : m ≤ n) :
    orbit f n o = none := by
  rw [← Nat.add_sub_cancel' hle, orbit_add, h, Option.bind_none]

/-- The steps from `o` come to an end. -/
def Ends (o : ι) : Prop := ∃ n, orbit f n o = none

/-- No position comes back on the way from `o`. -/
def Acyclic (o : ι) : Prop :=
  ∀ m n, m < n → orbit f m o ≠ none → orbit f n o ≠ orbit f m o

lemma Ends.acyclic {o : ι} (h : Ends f o) : Acyclic f o := by
  intro m n hlt hm heq
  obtain ⟨x, hx⟩ := Option.ne_none_iff_exists'.mp hm
  rw [hx] at heq
  obtain ⟨d, rfl⟩ : ∃ d, n = m + d := ⟨n - m, by omega⟩
  have hperiod : orbit f d x = some x := by
    rw [orbit_add, hx] at heq
    exact heq
  have hagain : ∀ k, orbit f (k * d) x = some x := by
    intro k
    induction k with
    | zero => simp [orbit]
    | succ k ih => rw [Nat.succ_mul, orbit_add, ih, Option.bind_some, hperiod]
  obtain ⟨N, hN⟩ := h
  have hlate : orbit f (m + (N + 1) * d) o = some x := by
    rw [orbit_add, hx, Option.bind_some, hagain]
  have hle : N ≤ m + (N + 1) * d := by nlinarith
  rw [orbit_none_of_le f hN hle] at hlate
  cases hlate

/-- Over finitely many positions the steps end exactly when none comes back. -/
theorem ends_iff_acyclic [Finite ι] (o : ι) : Ends f o ↔ Acyclic f o := by
  refine ⟨Ends.acyclic f, fun h => ?_⟩
  by_contra hnever
  simp only [Ends, not_exists] at hnever
  have hsome : ∀ n, ∃ x, orbit f n o = some x := fun n => Option.ne_none_iff_exists'.mp (hnever n)
  choose g hg using hsome
  have hinj : Function.Injective g := by
    intro a b hab
    rcases lt_trichotomy a b with hlt | rfl | hlt
    · exact absurd (by rw [hg, hg, hab]) (h a b hlt (hnever a))
    · rfl
    · exact absurd (by rw [hg, hg, hab]) (h b a hlt (hnever b))
  exact not_injective_infinite_finite g hinj

/-- The first position on the way from `o` that satisfies `p`. -/
def FirstOn (p : ι → Prop) (o o' : ι) : Prop :=
  ∃ n, orbit f n o = some o' ∧ p o' ∧ ∀ m < n, ∀ x, orbit f m o = some x → ¬p x

variable {f} {p : ι → Prop} {o o' x : ι}

lemma firstOn_self (h : p o) : FirstOn f p o o := ⟨0, rfl, h, fun _ hm => absurd hm (Nat.not_lt_zero _)⟩

lemma FirstOn.cons (hx : f o = some x) (hp : ¬p o) (h : FirstOn f p x o') : FirstOn f p o o' := by
  obtain ⟨n, horbit, hp', hbefore⟩ := h
  refine ⟨n + 1, by rw [orbit, hx, Option.bind_some, horbit], hp', fun m hm y hy => ?_⟩
  cases m with
  | zero =>
    obtain rfl := Option.some.inj hy
    exact hp
  | succ m =>
    rw [orbit, hx, Option.bind_some] at hy
    exact hbefore m (Nat.lt_of_succ_lt_succ hm) y hy

lemma FirstOn.unique {a b : ι} (ha : FirstOn f p o a) (hb : FirstOn f p o b) : a = b := by
  obtain ⟨m, hm, hpa, hbefore⟩ := ha
  obtain ⟨n, hn, hpb, hbefore'⟩ := hb
  rcases lt_trichotomy m n with hlt | rfl | hlt
  · exact absurd hpa (hbefore' m hlt a hm)
  · exact Option.some.inj (hm.symm.trans hn)
  · exact absurd hpb (hbefore n hlt b hn)

end Orbit

section Walk
variable {ε ι α : Type} [DecidableEq ι] (read : ι → Outcome ε α) (next : α → ι) (stop : ι)

/-- The first entry of the chain that satisfies `p`, reading one entry after the other. -/
def search (p : α → Bool) : ℕ → ι → Outcome ε (Option α)
  | 0, _ => running
  | fuel + 1, o =>
      if o = stop then ok none else do
        let a ← read o
        if p a then ok (some a) else search p fuel (next a)

/-- The position behind `o`, if an entry can be read there. -/
def link (o : ι) : Option ι :=
  if o = stop then none
  else
    match read o with
    | ok a => some (next a)
    | _ => none

/-- The chain from a position visits these entries and then stops. -/
inductive Spells : ι → List α → Prop
  | nil : Spells stop []
  | cons {o : ι} {a : α} {as : List α} :
      o ≠ stop → read o = ok a → Spells (next a) as → Spells o (a :: as)

/-- The chain from a position visits these positions, at which these entries stand, and then stops. -/
inductive Located : ι → List (ι × α) → Prop
  | nil : Located stop []
  | cons {o : ι} {a : α} {as : List (ι × α)} :
      o ≠ stop → read o = ok a → Located (next a) as → Located o ((o, a) :: as)

variable {read next stop}

omit [DecidableEq ι] in
theorem Located.spells {o : ι} {as : List (ι × α)} (h : Located read next stop o as) :
    Spells read next stop o (as.map Prod.snd) := by
  induction h with
  | nil => exact .nil
  | cons hne hread _ ih => exact .cons hne hread ih

omit [DecidableEq ι] in
/-- Entries each of which names the next one's position are what the chain from the first visits. -/
theorem located_of_links {κ : Type} (pos : κ → ι) (entry : κ → α) {l : List κ}
    (hread : ∀ k ∈ l, read (pos k) = ok (entry k)) (hstop : ∀ k ∈ l, pos k ≠ stop)
    (hnext : ∀ before k after, l = before ++ k :: after →
      next (entry k) = (after.head?.map pos).getD stop) :
    Located read next stop ((l.head?.map pos).getD stop) (l.map fun k => (pos k, entry k)) := by
  induction l with
  | nil => exact .nil
  | cons k l ih =>
    refine .cons (hstop k List.mem_cons_self) (hread k List.mem_cons_self) ?_
    rw [hnext [] k l rfl]
    refine ih (fun j hj => hread j (List.mem_cons_of_mem _ hj))
      (fun j hj => hstop j (List.mem_cons_of_mem _ hj)) fun before j after h => ?_
    exact hnext (k :: before) j after (by rw [h, List.cons_append])

omit [DecidableEq ι] in
theorem spells_of_links {κ : Type} (pos : κ → ι) (entry : κ → α) {l : List κ}
    (hread : ∀ k ∈ l, read (pos k) = ok (entry k)) (hstop : ∀ k ∈ l, pos k ≠ stop)
    (hnext : ∀ before k after, l = before ++ k :: after →
      next (entry k) = (after.head?.map pos).getD stop) :
    Spells read next stop ((l.head?.map pos).getD stop) (l.map entry) := by
  have hspells := (located_of_links pos entry hread hstop hnext).spells
  rwa [List.map_map] at hspells

theorem search_of_spells {p : α → Bool} {o : ι} {as : List α} (h : Spells read next stop o as)
    {fuel : ℕ} (hfuel : as.length < fuel) : search read next stop p fuel o = ok (as.find? p) := by
  induction h generalizing fuel with
  | nil =>
    cases fuel with
    | zero => exact absurd hfuel (Nat.not_lt_zero _)
    | succ fuel => simp [search]
  | cons hne hread _ ih =>
    cases fuel with
    | zero => exact absurd hfuel (Nat.not_lt_zero _)
    | succ fuel =>
      simp only [search, if_neg hne, hread, ok_bind]
      split_ifs with hp
      · rw [List.find?_cons_of_pos hp]
      · rw [List.find?_cons_of_neg hp]
        exact ih (by simpa using hfuel)

/-- A search settles where the chain ends. -/
theorem search_settled {p : α → Bool} (hread : ∀ o, Settled (read o)) {n : ℕ} {o : ι}
    (h : orbit (link read next stop) n o = none) : Settled (search read next stop p n o) := by
  induction n generalizing o with
  | zero => cases h
  | succ n ih =>
    rw [search]
    split_ifs with hstop
    · exact settled_ok none
    · rw [orbit, link, if_neg hstop] at h
      refine (hread o).bind fun a ha => ?_
      rw [ha] at h
      split_ifs
      · exact settled_ok (some a)
      · exact ih h

theorem search_ne_panic {p : α → Bool} (hread : ∀ o, Settled (read o)) (fuel : ℕ) (o : ι) :
    search read next stop p fuel o ≠ panic := by
  induction fuel generalizing o with
  | zero => nofun
  | succ fuel ih =>
    rw [search]
    split_ifs with hstop
    · nofun
    · rcases hread o with ⟨a, ha⟩ | ⟨e, he⟩
      · rw [ha, ok_bind]
        split_ifs
        · nofun
        · exact ih (next a)
      · rw [he, err_bind]
        nofun

/-- A search for what the chain does not hold settles only if the chain ends. -/
theorem ends_of_search {p : α → Bool} (hread : ∀ o, Settled (read o)) {fuel : ℕ} {o : ι}
    (hmiss : ∀ o a, read o = ok a → p a = false) (h : Settled (search read next stop p fuel o)) :
    orbit (link read next stop) fuel o = none := by
  induction fuel generalizing o with
  | zero => exact absurd rfl h.ne_running
  | succ fuel ih =>
    rw [search] at h
    rw [orbit, link]
    split_ifs at h ⊢ with hstop
    · rfl
    · rcases hread o with ⟨a, ha⟩ | ⟨e, he⟩
      · rw [ha, ok_bind, hmiss o a ha] at h
        rw [ha]
        exact ih (by simpa using h)
      · rw [he]
        rfl

/-- More turns do not change what a search has found. -/
theorem search_mono {p : α → Bool} {m n : ℕ} {o : ι}
    (h : search read next stop p m o ≠ running) (hle : m ≤ n) :
    search read next stop p n o = search read next stop p m o := by
  induction m generalizing n o with
  | zero => exact absurd rfl h
  | succ m ih =>
    obtain ⟨n, rfl⟩ : ∃ k, n = k + 1 := ⟨n - 1, by omega⟩
    rw [search] at h ⊢
    rw [search]
    split_ifs with hstop
    · rfl
    · rw [if_neg hstop] at h
      cases hr : read o with
      | ok a =>
        rw [hr, ok_bind] at h
        rw [ok_bind, ok_bind]
        split_ifs with hp
        · rfl
        · rw [if_neg hp] at h
          exact ih h (by omega)
      | err e => rfl
      | panic => rfl
      | running => rfl

theorem mem_of_search {p : α → Bool} {fuel : ℕ} {o : ι} {a : α}
    (h : search read next stop p fuel o = ok (some a)) :
    p a = true ∧ ∃ n o', orbit (link read next stop) n o = some o' ∧ o' ≠ stop ∧ read o' = ok a := by
  induction fuel generalizing o with
  | zero => cases h
  | succ fuel ih =>
    rw [search] at h
    split_ifs at h with hstop
    · cases h
    · obtain ⟨b, hb, h⟩ := bind_eq_ok.mp h
      split_ifs at h with hp
      · cases h
        exact ⟨hp, 0, o, rfl, hstop, hb⟩
      · obtain ⟨hp', n, o', horbit, hne, hread⟩ := ih h
        refine ⟨hp', n + 1, o', ?_, hne, hread⟩
        rw [orbit, link, if_neg hstop, hb, Option.bind_some, horbit]

variable (read stop) in
/-- An entry that satisfies `p` can be read at the position. -/
def Hit (p : α → Bool) (o : ι) : Prop := o ≠ stop ∧ ∃ a, read o = ok a ∧ p a = true

/-- A search returns the entry at the first position that satisfies `p`. -/
theorem firstOn_of_search {p : α → Bool} {fuel : ℕ} {o : ι} {a : α}
    (h : search read next stop p fuel o = ok (some a)) :
    ∃ o', FirstOn (link read next stop) (Hit read stop p) o o' ∧ read o' = ok a := by
  induction fuel generalizing o with
  | zero => cases h
  | succ fuel ih =>
    rw [search] at h
    split_ifs at h with hstop
    · cases h
    · obtain ⟨b, hb, h⟩ := bind_eq_ok.mp h
      split_ifs at h with hp
      · cases h
        exact ⟨o, firstOn_self ⟨hstop, a, hb, hp⟩, hb⟩
      · obtain ⟨o', hfirst, hread⟩ := ih h
        refine ⟨o', hfirst.cons (by rw [link, if_neg hstop, hb]) ?_, hread⟩
        rintro ⟨-, c, hc, hpc⟩
        obtain rfl := ok.inj (hb.symm.trans hc)
        exact hp hpc

/-- A search that may make enough turns comes to the first position that satisfies `p`. -/
theorem search_of_firstOn {p : α → Bool} {o o' : ι} {a : α}
    (h : FirstOn (link read next stop) (Hit read stop p) o o') (hread : read o' = ok a) :
    ∃ fuel, search read next stop p fuel o = ok (some a) := by
  obtain ⟨n, horbit, ⟨hstop, b, hb, hp⟩, hbefore⟩ := h
  obtain rfl := ok.inj (hb.symm.trans hread)
  refine ⟨n + 1, ?_⟩
  induction n generalizing o with
  | zero =>
    obtain rfl := Option.some.inj horbit
    rw [search, if_neg hstop, hb, ok_bind, if_pos hp]
  | succ n ih =>
    rw [orbit] at horbit
    obtain ⟨x, hx, horbit⟩ := Option.bind_eq_some_iff.mp horbit
    have hlink := hx
    rw [link] at hx
    split_ifs at hx with ho
    cases hr : read o with
    | ok c =>
      rw [hr] at hx
      obtain rfl := Option.some.inj hx
      have hpc : ¬p c = true := fun hpc => hbefore 0 (Nat.succ_pos n) o rfl ⟨ho, c, hr, hpc⟩
      rw [search, if_neg ho, hr, ok_bind, if_neg hpc]
      refine ih horbit fun m hm y hy => hbefore (m + 1) (Nat.succ_lt_succ hm) y ?_
      rw [orbit, hlink, Option.bind_some, hy]
    | err e => rw [hr] at hx; cases hx
    | panic => rw [hr] at hx; cases hx
    | running => rw [hr] at hx; cases hx

end Walk

/-! ## Reading along a chain -/

section Along
variable {ε ι α : Type} [DecidableEq ι] (read : ι → Outcome ε α) (next : α → ι) (stop : ι)

/-- The entries that `n` steps along a chain read, up to its end or to the first entry that cannot be
read, and the position where they stop. -/
def readAlong : ℕ → ι → List α × ι
  | 0, o => ([], o)
  | n + 1, o =>
      if o = stop then ([], o)
      else
        match read o with
        | ok a => (a :: (readAlong n (next a)).1, (readAlong n (next a)).2)
        | _ => ([], o)

/-- The chain from `o` comes to an entry that cannot be read. -/
def Breaks (o : ι) : Prop :=
  ∃ n o', orbit (link read next stop) n o = some o' ∧ o' ≠ stop ∧ link read next stop o' = none

variable {read next stop} {o : ι} {a : α}

lemma exists_of_link {x : ι} (h : link read next stop o = some x) :
    o ≠ stop ∧ ∃ a, read o = ok a ∧ next a = x := by
  rw [link] at h
  split_ifs at h with hstop
  cases hread : read o with
  | ok a =>
    rw [hread] at h
    exact ⟨hstop, a, rfl, Option.some.inj h⟩
  | err e => rw [hread] at h; cases h
  | panic => rw [hread] at h; cases h
  | running => rw [hread] at h; cases h

lemma link_of_read (hstop : o ≠ stop) (hread : read o = ok a) :
    link read next stop o = some (next a) := by
  rw [link, if_neg hstop, hread]

lemma readAlong_succ (hstop : o ≠ stop) (hread : read o = ok a) (n : ℕ) :
    readAlong read next stop (n + 1) o =
      (a :: (readAlong read next stop n (next a)).1, (readAlong read next stop n (next a)).2) := by
  rw [readAlong, if_neg hstop, hread]

lemma readAlong_of_link_none (h : link read next stop o = none) (n : ℕ) :
    readAlong read next stop n o = ([], o) := by
  cases n with
  | zero => rfl
  | succ n =>
    rw [readAlong]
    split_ifs with hstop
    · rfl
    · cases hread : read o with
      | ok a =>
        rw [link_of_read hstop hread] at h
        cases h
      | err e => rfl
      | panic => rfl
      | running => rfl

lemma orbit_of_readAlong_lt {n : ℕ} (h : (readAlong read next stop n o).1.length < n) :
    ∃ m, orbit (link read next stop) m o = some (readAlong read next stop n o).2 ∧
      link read next stop (readAlong read next stop n o).2 = none := by
  induction n generalizing o with
  | zero => exact absurd h (Nat.not_lt_zero _)
  | succ n ih =>
    cases hlink : link read next stop o with
    | none =>
      rw [readAlong_of_link_none hlink]
      exact ⟨0, rfl, hlink⟩
    | some x =>
      obtain ⟨hstop, a, hread, rfl⟩ := exists_of_link hlink
      rw [readAlong_succ hstop hread] at h ⊢
      obtain ⟨m, horbit, hnone⟩ := ih (Nat.lt_of_succ_lt_succ h)
      exact ⟨m + 1, by rw [orbit, hlink, Option.bind_some, horbit], hnone⟩

lemma readAlong_of_orbit {m : ℕ} {o' : ι} (horbit : orbit (link read next stop) m o = some o')
    (hnone : link read next stop o' = none) :
    (readAlong read next stop (m + 1) o).1.length ≤ m ∧ (readAlong read next stop (m + 1) o).2 = o' := by
  induction m generalizing o with
  | zero =>
    obtain rfl := Option.some.inj horbit
    rw [readAlong_of_link_none hnone]
    exact ⟨le_rfl, rfl⟩
  | succ m ih =>
    rw [orbit] at horbit
    obtain ⟨x, hlink, horbit⟩ := Option.bind_eq_some_iff.mp horbit
    obtain ⟨hstop, a, hread, rfl⟩ := exists_of_link hlink
    rw [readAlong_succ hstop hread, List.length_cons]
    obtain ⟨hlen, hpos⟩ := ih horbit
    exact ⟨Nat.succ_le_succ hlen, hpos⟩

/-- A chain breaks if and only if some number of steps comes short before its end. -/
theorem breaks_iff : Breaks read next stop o ↔
    ∃ n, (readAlong read next stop n o).1.length < n ∧ (readAlong read next stop n o).2 ≠ stop := by
  constructor
  · rintro ⟨m, o', horbit, hstop, hnone⟩
    obtain ⟨hlen, rfl⟩ := readAlong_of_orbit horbit hnone
    exact ⟨m + 1, Nat.lt_succ_of_le hlen, hstop⟩
  · rintro ⟨n, hlt, hstop⟩
    obtain ⟨m, horbit, hnone⟩ := orbit_of_readAlong_lt hlt
    exact ⟨m, _, horbit, hstop, hnone⟩

lemma readAlong_of_le {m n : ℕ} (h : (readAlong read next stop n o).1.length < n) (hle : n ≤ m) :
    readAlong read next stop m o = readAlong read next stop n o := by
  induction n generalizing m o with
  | zero => exact absurd h (Nat.not_lt_zero _)
  | succ n ih =>
    cases hlink : link read next stop o with
    | none => rw [readAlong_of_link_none hlink, readAlong_of_link_none hlink]
    | some x =>
      obtain ⟨hstop, a, hread, rfl⟩ := exists_of_link hlink
      obtain ⟨m, rfl⟩ : ∃ k, m = k + 1 := ⟨m - 1, by omega⟩
      rw [readAlong_succ hstop hread] at h ⊢
      rw [readAlong_succ hstop hread, ih (Nat.lt_of_succ_lt_succ h) (Nat.le_of_succ_le_succ hle)]

/-- A search finds the first of the entries that are read along the chain. -/
theorem search_of_find {p : α → Bool} {n fuel : ℕ} (h : (readAlong read next stop n o).1.find? p = some a)
    (hle : n ≤ fuel) : search read next stop p fuel o = ok (some a) := by
  induction n generalizing fuel o with
  | zero => cases h
  | succ n ih =>
    cases hlink : link read next stop o with
    | none =>
      rw [readAlong_of_link_none hlink] at h
      cases h
    | some x =>
      obtain ⟨hstop, b, hread, rfl⟩ := exists_of_link hlink
      obtain ⟨fuel, rfl⟩ : ∃ k, fuel = k + 1 := ⟨fuel - 1, by omega⟩
      rw [readAlong_succ hstop hread, List.find?_cons] at h
      rw [search, if_neg hstop, hread, ok_bind]
      cases hp : p b with
      | true =>
        rw [hp] at h
        rw [if_pos rfl, Option.some.inj h]
      | false =>
        rw [hp] at h
        rw [if_neg Bool.false_ne_true]
        exact ih h (Nat.le_of_succ_le_succ hle)

theorem search_of_find_none {p : α → Bool} {n fuel : ℕ} (hlt : (readAlong read next stop n o).1.length < n)
    (h : (readAlong read next stop n o).1.find? p = none) (hle : n ≤ fuel) :
    search read next stop p fuel o =
      if (readAlong read next stop n o).2 = stop then ok none
      else read (readAlong read next stop n o).2 >>= fun _ => ok none := by
  induction n generalizing fuel o with
  | zero => exact absurd hlt (Nat.not_lt_zero _)
  | succ n ih =>
    obtain ⟨fuel, rfl⟩ : ∃ k, fuel = k + 1 := ⟨fuel - 1, by omega⟩
    rw [search]
    cases hlink : link read next stop o with
    | none =>
      rw [readAlong_of_link_none hlink]
      split_ifs with hstop
      · rfl
      · cases hread : read o with
        | ok b =>
          rw [link_of_read hstop hread] at hlink
          cases hlink
        | err e => rfl
        | panic => rfl
        | running => rfl
    | some x =>
      obtain ⟨hstop, b, hread, rfl⟩ := exists_of_link hlink
      rw [readAlong_succ hstop hread, List.find?_cons] at h
      rw [readAlong_succ hstop hread] at hlt ⊢
      rw [if_neg hstop, hread, ok_bind]
      cases hp : p b with
      | true =>
        rw [hp] at h
        cases h
      | false =>
        rw [hp] at h
        rw [if_neg Bool.false_ne_true]
        exact ih (Nat.lt_of_succ_lt_succ hlt) h (Nat.le_of_succ_le_succ hle)

end Along

end NxObject.Chain
