import Mathlib.Data.Fintype.Card
import Mathlib.Data.Fintype.Prod
import Mathlib.Tactic

/-!
# Copy-on-write

Environments `E` map pages at the addresses `A` to frames `F`, and a frame holds contents `C`.
Duplicating the pages of an environment maps the same frames once more and copies nothing, and a
page is copied when it is written.

**The invariant** (`Proper`). A frame that can be written has one mapping, and a frame that is to be
copied when it is written has at most one mapping in each environment.

**What it is for.** Let `R` be a system where every environment has copies of its own, and a fork
copies all of them. `Agree` says that both systems show the same, for the environments and the
addresses that count. Each step keeps it: a write (`Wrote.agree`), a page that gets a frame of its
own (`Renewed.agree`), and a fork (`Duplicated.agree`).

The steps are properties of two states. A frame that is not mapped before and after a step may
change in it: it can be freed, taken, or filled.
-/

namespace Lib.Cow

/-- What an environment can do with a page: write it, get a copy when it writes, read it, or
nothing. -/
inductive Mode
  | rw
  | cow
  | ro
  | hidden
  deriving DecidableEq

structure Entry (F : Type*) where
  frame : F
  mode : Mode

structure Spaces (E A F C : Type*) where
  map : E × A → Option (Entry F)
  mem : F → C

variable {E A F C : Type*} {s s' : Spaces E A F C} {z : E × A} {x y : Entry F} {f : F} {c : C}
  {R : E × A → Option C} {live : E → Prop} {low : A → Prop}

/-- A writable page that is shared becomes copy-on-write. -/
def Entry.share (x : Entry F) : Entry F := if x.mode = .rw then ⟨x.frame, .cow⟩ else x

/-- What is seen of an entry. -/
def Entry.show (mem : F → C) (x : Entry F) : Option C :=
  if x.mode = .hidden then none else some (mem x.frame)

/-- What an environment sees at an address. -/
def Spaces.view (s : Spaces E A F C) (z : E × A) : Option C := (s.map z).bind (Entry.show s.mem)

/-- The frame is mapped at `z`. -/
def Spaces.Names (s : Spaces E A F C) (z : E × A) (f : F) : Prop := ∃ m, s.map z = some ⟨f, m⟩

structure Proper (s : Spaces E A F C) : Prop where
  sole : ∀ z z' f, s.map z = some ⟨f, .rw⟩ → s.Names z' f → z' = z
  once : ∀ z e a a' f, s.map z = some ⟨f, .cow⟩ → s.Names (e, a) f → s.Names (e, a') f → a = a'

theorem share_frame (x : Entry F) : x.share.frame = x.frame := by
  unfold Entry.share
  split_ifs <;> rfl

theorem share_ne_rw (x : Entry F) : x.share.mode ≠ .rw := by
  unfold Entry.share
  split_ifs with h
  · nofun
  · exact h

theorem share_hidden_iff (x : Entry F) : x.share.mode = .hidden ↔ x.mode = .hidden := by
  unfold Entry.share
  split_ifs with h
  · simp [h]
  · rfl

theorem show_share (mem : F → C) (x : Entry F) : x.share.show mem = x.show mem := by
  unfold Entry.show
  rw [share_frame, if_congr (share_hidden_iff x) rfl rfl]

theorem show_rw (mem : F → C) (f : F) : (⟨f, .rw⟩ : Entry F).show mem = some (mem f) := rfl

theorem names_of_map (h : s.map z = some x) : s.Names z x.frame := ⟨x.mode, h⟩

/-- **The number of mappings** of a frame that can be written or copied. -/
theorem Proper.card_le [Fintype E] (h : Proper s)
    (hz : s.map z = some ⟨f, .rw⟩ ∨ s.map z = some ⟨f, .cow⟩) (S : Finset (E × A))
    (hS : ∀ z ∈ S, s.Names z f) : S.card ≤ Fintype.card E := by
  refine Finset.card_le_card_of_injOn Prod.fst (fun _ _ => Finset.mem_univ _) ?_
  rintro ⟨e, a⟩ hx ⟨e', a'⟩ hy (rfl : e = e')
  rcases hz with hz | hz
  · rw [h.sole z _ f hz (hS _ hx), h.sole z _ f hz (hS _ hy)]
  · rw [h.once z e a a' f hz (hS _ hx) (hS _ hy)]

/-- What the environments in `live` see at the addresses in `low` is `R`. -/
def Agree (s : Spaces E A F C) (R : E × A → Option C) (live : E → Prop) (low : A → Prop) : Prop :=
  ∀ e a, live e → low a → s.view (e, a) = R (e, a)

theorem Agree.of_view (ha : Agree s R live low) (hv : s'.view = s.view) : Agree s' R live low := by
  unfold Agree
  rw [hv]
  exact ha

theorem Agree.congr {R' : E × A → Option C} {live' : E → Prop} (ha : Agree s R live low)
    (hR : ∀ e a, low a → R' (e, a) = R (e, a)) (hlive : ∀ e, live' e → live e) :
    Agree s R' live' low := by
  intro e a he hlow
  rw [hR e a hlow]
  exact ha e a (hlive e he) hlow

theorem Proper.congr (h : Proper s) (hmap : s'.map = s.map) : Proper s' := by
  constructor
  · intro z z' f hz hz'
    rw [Spaces.Names, hmap] at hz'
    rw [hmap] at hz
    exact h.sole z z' f hz hz'
  · intro z e a a' f hz ha ha'
    rw [Spaces.Names, hmap] at ha ha'
    rw [hmap] at hz
    exact h.once z e a a' f hz ha ha'

/-- Frames that are not mapped do not show. -/
theorem view_congr (hmap : s'.map = s.map) (hmem : ∀ z f, s.Names z f → s'.mem f = s.mem f) :
    s'.view = s.view := by
  funext z
  rw [Spaces.view, Spaces.view, hmap]
  cases hx : s.map z with
  | none => rfl
  | some x => simp only [Option.bind_some, Entry.show, hmem z x.frame (names_of_map hx)]

/-! ## Writing a page -/

/-- The page at `z` has been written, with `c` as the new contents. -/
structure Wrote [DecidableEq F] (s s' : Spaces E A F C) (z : E × A) (c : C) : Prop where
  map : s'.map = s.map
  mem : ∃ f, s.map z = some ⟨f, .rw⟩ ∧ s'.mem = Function.update s.mem f c

theorem Wrote.proper [DecidableEq F] (hw : Wrote s s' z c) (h : Proper s) : Proper s' :=
  h.congr hw.map

section
variable [DecidableEq E] [DecidableEq A]

theorem Wrote.view [DecidableEq F] (hw : Wrote s s' z c) (h : Proper s) :
    s'.view = Function.update s.view z (some c) := by
  obtain ⟨f, hf, hmem⟩ := hw.mem
  funext z'
  by_cases hz : z' = z
  · subst hz
    rw [Function.update_self, Spaces.view, hw.map, hf, hmem, Option.bind_some, show_rw,
      Function.update_self]
  · rw [Function.update_of_ne hz, Spaces.view, Spaces.view, hw.map]
    cases hx : s.map z' with
    | none => rfl
    | some x =>
      -- no other page has this frame
      have hne : x.frame ≠ f := by
        rintro rfl
        exact hz (h.sole z z' _ hf (names_of_map hx))
      simp only [Option.bind_some, Entry.show, hmem, Function.update_of_ne hne]

theorem Wrote.agree [DecidableEq F] (hw : Wrote s s' z c) (h : Proper s) (ha : Agree s R live low) :
    Agree s' (Function.update R z (some c)) live low := by
  intro e a he hlow
  rw [hw.view h]
  by_cases hz : (e, a) = z
  · rw [hz, Function.update_self, Function.update_self]
  · rw [Function.update_of_ne hz, Function.update_of_ne hz]
    exact ha e a he hlow

/-! ## A frame of its own -/

/-- The page at `z` has got a frame that was not mapped, with the contents `c`. -/
structure Renewed (s s' : Spaces E A F C) (z : E × A) (c : C) : Prop where
  fresh : ∃ f, (∀ z', ¬ s.Names z' f) ∧ s'.map = Function.update s.map z (some ⟨f, .rw⟩) ∧
    s'.mem f = c
  mem : ∀ z₁ z₂ f, s.Names z₁ f → s'.Names z₂ f → s'.mem f = s.mem f

theorem names_of_update {p : F} (hmap : s'.map = Function.update s.map z (some ⟨p, .rw⟩))
    (hfresh : ∀ z', ¬ s.Names z' p) {z' : E × A} (hz' : s'.Names z' f) :
    z' = z ∧ f = p ∨ f ≠ p ∧ s.Names z' f := by
  obtain ⟨m, hm⟩ := hz'
  rw [hmap] at hm
  by_cases hz : z' = z
  · subst hz
    rw [Function.update_self, Option.some.injEq, Entry.mk.injEq] at hm
    exact .inl ⟨rfl, hm.1.symm⟩
  · rw [Function.update_of_ne hz] at hm
    refine .inr ⟨?_, m, hm⟩
    rintro rfl
    exact hfresh z' ⟨m, hm⟩

theorem Renewed.proper (hr : Renewed s s' z c) (h : Proper s) : Proper s' := by
  obtain ⟨p, hfresh, hmap, -⟩ := hr.fresh
  have hold : ∀ {z' x}, s'.map z' = some x → z' ≠ z → s.map z' = some x := by
    intro z' x hx hne
    rwa [hmap, Function.update_of_ne hne] at hx
  constructor
  · intro z₁ z₂ f h₁ h₂
    rcases names_of_update hmap hfresh ⟨.rw, h₁⟩ with ⟨rfl, rfl⟩ | ⟨hne, hn₁⟩
    · exact ((names_of_update hmap hfresh h₂).resolve_right fun hc => hc.1 rfl).1
    · obtain ⟨-, hn₂⟩ := (names_of_update hmap hfresh h₂).resolve_left fun hc => hne hc.2
      by_cases hz : z₁ = z
      · subst hz
        rw [hmap, Function.update_self, Option.some.injEq, Entry.mk.injEq] at h₁
        exact (hne h₁.1.symm).elim
      · exact h.sole z₁ z₂ f (hold h₁ hz) hn₂
  · intro z₁ e a a' f h₁ ha ha'
    have hz : z₁ ≠ z := by
      rintro rfl
      rw [hmap, Function.update_self, Option.some.injEq, Entry.mk.injEq] at h₁
      exact absurd h₁.2 nofun
    have h₁' := hold h₁ hz
    have hne : f ≠ p := by
      rintro rfl
      exact hfresh z₁ ⟨_, h₁'⟩
    obtain ⟨-, hn⟩ := (names_of_update hmap hfresh ha).resolve_left fun hc => hne hc.2
    obtain ⟨-, hn'⟩ := (names_of_update hmap hfresh ha').resolve_left fun hc => hne hc.2
    exact h.once z₁ e a a' f h₁' hn hn'

theorem Renewed.view (hr : Renewed s s' z c) : s'.view = Function.update s.view z (some c) := by
  obtain ⟨p, hfresh, hmap, hc⟩ := hr.fresh
  funext z'
  by_cases hz : z' = z
  · subst hz
    rw [Function.update_self, Spaces.view, hmap, Function.update_self, ← hc,
      Option.bind_some, show_rw]
  · have hsame : s'.map z' = s.map z' := by rw [hmap, Function.update_of_ne hz]
    rw [Function.update_of_ne hz, Spaces.view, Spaces.view, hsame]
    cases hx : s.map z' with
    | none => rfl
    | some x =>
      have hmem := hr.mem z' z' x.frame (names_of_map hx) (names_of_map (hsame.trans hx))
      simp only [Option.bind_some, Entry.show, hmem]

/-- What counts is not changed: the page has its old contents, or its address does not count. -/
theorem Renewed.agree (hr : Renewed s s' z c) (hz : low z.2 → s.view z = some c)
    (ha : Agree s R live low) :
    Agree s' R live low := by
  intro e a he hlow
  rw [hr.view]
  by_cases heq : (e, a) = z
  · subst heq
    rw [Function.update_self, ← hz hlow]
    exact ha e a he hlow
  · rw [Function.update_of_ne heq]
    exact ha e a he hlow

end

/-! ## Duplicating -/

/-- The pages of `e` at the addresses in `low` are shared with `d`, which had none. -/
structure Duplicated (s s' : Spaces E A F C) (e d : E) (low : A → Prop) : Prop where
  ne : d ≠ e
  empty : ∀ a, s.map (d, a) = none
  shared : ∀ a x, low a → s.map (e, a) = some x → x.mode ≠ .hidden →
    s'.map (e, a) = some x.share ∧ s'.map (d, a) = some x.share
  kept : ∀ a, (low a → ∀ x, s.map (e, a) = some x → x.mode = .hidden) →
    s'.map (e, a) = s.map (e, a) ∧ s'.map (d, a) = none
  others : ∀ z, z.1 ≠ e → z.1 ≠ d → s'.map z = s.map z
  mem : ∀ z f, s.Names z f → s'.mem f = s.mem f

variable {e d : E}

theorem Duplicated.cases (hd : Duplicated s s' e d low) (a : A) :
    (∃ x, s.map (e, a) = some x ∧ s'.map (e, a) = some x.share ∧ s'.map (d, a) = some x.share) ∨
      s'.map (e, a) = s.map (e, a) ∧ s'.map (d, a) = none := by
  by_cases h : low a → ∀ x, s.map (e, a) = some x → x.mode = .hidden
  · exact .inr (hd.kept a h)
  · push Not at h
    obtain ⟨hlow, x, hx, hm⟩ := h
    exact .inl ⟨x, hx, hd.shared a x hlow hx hm⟩

/-- Where an entry comes from: the same address, of the same environment or of the parent. -/
theorem Duplicated.origin (hd : Duplicated s s' e d low) {z : E × A} (hz : s'.map z = some y) :
    ∃ z₀ x, s.map z₀ = some x ∧ z₀.2 = z.2 ∧ (z₀ = z ∧ z.1 ≠ d ∨ z₀.1 = e ∧ z.1 = d) ∧
      (y = x.share ∨ y = x ∧ z₀ = z) := by
  obtain ⟨e', a⟩ := z
  by_cases he : e' = e
  · subst he
    rcases hd.cases a with ⟨x, hx, hx', -⟩ | ⟨hsame, -⟩
    · exact ⟨(e', a), x, hx, rfl, .inl ⟨rfl, hd.ne.symm⟩,
        .inl (Option.some.inj (hz.symm.trans hx'))⟩
    · exact ⟨(e', a), y, hsame ▸ hz, rfl, .inl ⟨rfl, hd.ne.symm⟩, .inr ⟨rfl, rfl⟩⟩
  by_cases hed : e' = d
  · subst hed
    rcases hd.cases a with ⟨x, hx, -, hx'⟩ | ⟨-, hnone⟩
    · exact ⟨(e, a), x, hx, rfl, .inr ⟨rfl, rfl⟩, .inl (Option.some.inj (hz.symm.trans hx'))⟩
    · cases hnone.symm.trans hz
  · exact ⟨(e', a), y, hd.others (e', a) he hed ▸ hz, rfl, .inl ⟨rfl, hed⟩, .inr ⟨rfl, rfl⟩⟩

/-- The frame of an entry was mapped where the entry comes from. -/
theorem Duplicated.names_origin (hd : Duplicated s s' e d low) {z : E × A} (hz : s'.Names z f) :
    ∃ z₀, s.Names z₀ f ∧ z₀.2 = z.2 ∧ (z₀ = z ∧ z.1 ≠ d ∨ z₀.1 = e ∧ z.1 = d) := by
  obtain ⟨m, hm⟩ := hz
  obtain ⟨z₀, x, hx, haddr, hplace, hy⟩ := hd.origin hm
  refine ⟨z₀, ⟨x.mode, ?_⟩, haddr, hplace⟩
  have hframe : x.frame = f := by
    rcases hy with hy | ⟨rfl, -⟩
    · rw [← share_frame, ← hy]
    · rfl
  rw [hx, ← hframe]

theorem Duplicated.proper (hd : Duplicated s s' e d low) (h : Proper s) : Proper s' := by
  constructor
  · intro z z' f hz hz'
    obtain ⟨z₀, x, hx, -, -, hy⟩ := hd.origin hz
    rcases hy with hy | ⟨rfl, rfl⟩
    · exact (share_ne_rw x (by rw [← hy])).elim
    obtain ⟨z₁, hn, haddr, ⟨rfl, -⟩ | ⟨hpar, hchild⟩⟩ := hd.names_origin hz'
    · exact h.sole _ _ f hx hn
    · -- a page that the child has is not writable in the parent
      obtain rfl := h.sole _ _ f hx hn
      obtain ⟨e₁, a₁⟩ := z₁
      obtain rfl : e₁ = e := hpar
      rcases hd.cases a₁ with ⟨x, -, hx', -⟩ | ⟨-, hnone⟩
      · exact (share_ne_rw x (by rw [← Option.some.inj (hz.symm.trans hx')])).elim
      · obtain ⟨m, hm⟩ := hz'
        rw [show z' = (d, a₁) from Prod.ext hchild haddr.symm, hnone] at hm
        cases hm
  · intro z e' a a' f hz ha ha'
    -- both mappings come from one environment
    have hback : ∀ {a}, s'.Names (e', a) f → ∃ e₀, s.Names (e₀, a) f ∧
      (e₀ = e' ∧ e' ≠ d ∨ e₀ = e ∧ e' = d) := by
      intro a ha
      obtain ⟨⟨e₀, a₀⟩, hn, rfl, hplace⟩ := hd.names_origin ha
      refine ⟨e₀, hn, hplace.imp (fun hc => ⟨congrArg Prod.fst hc.1, hc.2⟩) id⟩
    obtain ⟨e₁, hn₁, hp₁⟩ := hback ha
    obtain ⟨e₂, hn₂, hp₂⟩ := hback ha'
    have heq : e₂ = e₁ := by
      rcases hp₁ with ⟨rfl, hne⟩ | ⟨rfl, hd₁⟩ <;> rcases hp₂ with ⟨rfl, hne'⟩ | ⟨rfl, hd₂⟩
      · rfl
      · exact (hne hd₂).elim
      · exact (hne' hd₁).elim
      · rfl
    subst heq
    obtain ⟨z₀, x, hx, -, -, hy⟩ := hd.origin hz
    have hmode : x = ⟨f, .rw⟩ ∨ x = ⟨f, .cow⟩ := by
      rcases hy with hy | ⟨rfl, -⟩
      · obtain ⟨g, m⟩ := x
        cases m <;> simp_all [Entry.share]
      · exact .inr rfl
    rcases hmode with rfl | rfl
    · exact congrArg Prod.snd ((h.sole z₀ _ f hx hn₁).trans (h.sole z₀ _ f hx hn₂).symm)
    · exact h.once z₀ _ a a' f hx hn₁ hn₂

theorem Duplicated.view_of_map (hd : Duplicated s s' e d low) {z z' : E × A}
    (hmap : s'.map z' = s.map z ∨ ∃ x, s.map z = some x ∧ s'.map z' = some x.share) :
    s'.view z' = s.view z := by
  have hshow : ∀ x, s.map z = some x → x.show s'.mem = x.show s.mem := by
    intro x hx
    unfold Entry.show
    rw [hd.mem z _ (names_of_map hx)]
  rw [Spaces.view, Spaces.view]
  rcases hmap with hmap | ⟨x, hx, hx'⟩
  · rw [hmap]
    cases hx : s.map z with
    | none => rfl
    | some x => exact hshow x hx
  · rw [hx, hx']
    exact (show_share _ _).trans (hshow x hx)

theorem Duplicated.view_other (hd : Duplicated s s' e d low) {z : E × A} (hz : z.1 ≠ d) :
    s'.view z = s.view z := by
  obtain ⟨e', a⟩ := z
  apply hd.view_of_map
  by_cases he : e' = e
  · subst he
    rcases hd.cases a with ⟨x, hx, hx', -⟩ | ⟨hsame, -⟩
    · exact .inr ⟨x, hx, hx'⟩
    · exact .inl hsame
  · exact .inl (hd.others (e', a) he hz)

theorem Duplicated.view_child (hd : Duplicated s s' e d low) {a : A} (ha : low a) :
    s'.view (d, a) = s.view (e, a) := by
  by_cases h : ∀ x, s.map (e, a) = some x → x.mode = .hidden
  · obtain ⟨-, hnone⟩ := hd.kept a fun _ => h
    rw [Spaces.view, Spaces.view, hnone]
    cases hx : s.map (e, a) with
    | none => rfl
    | some x => exact (if_pos (h x hx)).symm
  · push Not at h
    obtain ⟨x, hx, hm⟩ := h
    exact hd.view_of_map (.inr ⟨x, hx, (hd.shared a x ha hx hm).2⟩)

/-- Copying at once: the child gets copies of its own. -/
def copyTo [DecidableEq E] (R : E × A → Option C) (e d : E) (low : A → Prop) [DecidablePred low] :
    E × A → Option C :=
  fun z => if z.1 = d then if low z.2 then R (e, z.2) else none else R z

theorem Duplicated.agree [DecidableEq E] [DecidablePred low] (hd : Duplicated s s' e d low)
    (he : live e) (ha : Agree s R live low) :
    Agree s' (copyTo R e d low) (fun e' => live e' ∨ e' = d) low := by
  intro e' a hlive hlow
  by_cases hed : e' = d
  · subst hed
    rw [hd.view_child hlow, copyTo, if_pos rfl, if_pos hlow]
    exact ha e a he hlow
  · rw [hd.view_other hed, copyTo, if_neg hed]
    exact ha e' a (hlive.resolve_right hed) hlow

end Lib.Cow
