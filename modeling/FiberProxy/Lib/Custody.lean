/-
  FiberProxy.Lib.Custody

  Things that go back and forth between shelves and holders.  A thing has a home,
  the shelf it belongs on.  `Custody` says that every known thing is on its own
  shelf, once, or with one holder; the three moves keep it:

    * `Custody.take` — a holder takes the first thing of a shelf;
    * `Custody.create` — a holder gets a new thing;
    * `Custody.file` — a holder puts its thing back at the end of its shelf.
-/

import Mathlib.Data.List.Nodup
import Mathlib.Logic.Function.Basic

namespace FiberProxy.Lib

variable {τ κ η : Type*}

/-- Every known thing is in one place. -/
structure Custody (known : τ → Prop) (home : τ → κ) (shelf : κ → List τ) (held : η → Option τ) :
    Prop where
  nodup : ∀ k, (shelf k).Nodup
  home_eq : ∀ k t, t ∈ shelf k → home t = k
  known_shelf : ∀ k t, t ∈ shelf k → known t
  known_held : ∀ h t, held h = some t → known t
  holder_inj : ∀ h h' t, held h = some t → held h' = some t → h = h'
  apart : ∀ h t, held h = some t → ∀ k, t ∉ shelf k
  placed : ∀ t, known t → t ∈ shelf (home t) ∨ ∃ h, held h = some t

/-- A thing is on its shelf, once and on no other, and nobody holds it; or it is on no
    shelf and has exactly one holder. -/
def InOnePlace [DecidableEq τ] (home : τ → κ) (shelf : κ → List τ) (held : η → Option τ) (t : τ) :
    Prop :=
  ((shelf (home t)).count t = 1 ∧ (∀ k, k ≠ home t → t ∉ shelf k) ∧ ∀ h, held h ≠ some t) ∨
    ((∀ k, t ∉ shelf k) ∧ ∃! h, held h = some t)

section Moves

variable {known : τ → Prop} {home : τ → κ} {shelf : κ → List τ} {held : η → Option τ}

theorem custody_empty (home : τ → κ) :
    Custody (fun _ => False) home (fun _ => []) (fun _ : η => none) where
  nodup _ := List.nodup_nil
  home_eq _ _ h := absurd h List.not_mem_nil
  known_shelf _ _ h := absurd h List.not_mem_nil
  known_held _ _ h := nomatch h
  holder_inj _ _ _ h := nomatch h
  apart _ _ h := nomatch h
  placed _ h := h.elim

/-- What custody says of one thing. -/
theorem Custody.inOnePlace [DecidableEq τ] (c : Custody known home shelf held) {t : τ}
    (ht : known t) : InOnePlace home shelf held t := by
  rcases c.placed t ht with hmem | ⟨h, hh⟩
  · refine .inl ⟨List.count_eq_one_of_mem (c.nodup _) hmem, fun k hk hmem' => ?_, fun h hh => ?_⟩
    · exact hk (c.home_eq k t hmem').symm
    · exact c.apart h t hh _ hmem
  · exact .inr ⟨c.apart h t hh, h, hh, fun h' hh' => c.holder_inj h' h t hh' hh⟩

/-- Only the homes of the things that are known matter. -/
theorem Custody.congr_home {home' : τ → κ} (c : Custody known home shelf held)
    (hhome : ∀ t, known t → home' t = home t) : Custody known home' shelf held where
  nodup := c.nodup
  home_eq k t hmem := (hhome t (c.known_shelf k t hmem)).trans (c.home_eq k t hmem)
  known_shelf := c.known_shelf
  known_held := c.known_held
  holder_inj := c.holder_inj
  apart := c.apart
  placed t ht := by
    rw [hhome t ht]
    exact c.placed t ht

section Holders

variable [DecidableEq η]

/-- Who holds what after a holder has got a thing. -/
theorem update_held_eq_some {h h' : η} {t t' : τ}
    (heq : Function.update held h (some t) h' = some t') :
    (h' = h ∧ t' = t) ∨ (h' ≠ h ∧ held h' = some t') := by
  by_cases hhh : h' = h
  · subst hhh
    rw [Function.update_self] at heq
    exact .inl ⟨rfl, (Option.some.inj heq).symm⟩
  · rw [Function.update_of_ne hhh] at heq
    exact .inr ⟨hhh, heq⟩

/-- A holder that held nothing gets a thing; the others keep theirs. -/
theorem update_held_of_some {h h' : η} {t : τ} {v : Option τ} (hh : held h = none)
    (hh' : held h' = some t) : Function.update held h v h' = some t := by
  have hne : h' ≠ h := by
    rintro rfl
    simp [hh] at hh'
  rwa [Function.update_of_ne hne]

/-- A thing that nobody held has one holder. -/
theorem Custody.holder_inj_update (c : Custody known home shelf held) {t : τ} {h : η}
    (hfree : ∀ h', held h' ≠ some t) (h₁ h₂ : η) (t' : τ)
    (heq₁ : Function.update held h (some t) h₁ = some t')
    (heq₂ : Function.update held h (some t) h₂ = some t') : h₁ = h₂ := by
  rcases update_held_eq_some heq₁ with ⟨rfl, rfl⟩ | ⟨-, hold₁⟩
  · rcases update_held_eq_some heq₂ with ⟨rfl, -⟩ | ⟨-, hold₂⟩
    · rfl
    · exact absurd hold₂ (hfree h₂)
  · rcases update_held_eq_some heq₂ with ⟨rfl, rfl⟩ | ⟨-, hold₂⟩
    · exact absurd hold₁ (hfree h₁)
    · exact c.holder_inj h₁ h₂ t' hold₁ hold₂

/-- A holder that holds nothing gets a thing that was not known. -/
theorem Custody.create (c : Custody known home shelf held) {t : τ} {h : η} (ht : ¬ known t)
    (hh : held h = none) :
    Custody (fun t' => known t' ∨ t' = t) home shelf (Function.update held h (some t)) := by
  constructor
  case nodup => exact c.nodup
  case home_eq => exact c.home_eq
  case known_shelf => exact fun k t' hmem => .inl (c.known_shelf k t' hmem)
  case known_held =>
    intro h' t' heq
    rcases update_held_eq_some heq with ⟨-, rfl⟩ | ⟨-, ho⟩
    · exact .inr rfl
    · exact .inl (c.known_held h' t' ho)
  case holder_inj => exact c.holder_inj_update fun h' ho => ht (c.known_held h' t ho)
  case apart =>
    intro h' t' heq k hmem
    rcases update_held_eq_some heq with ⟨-, rfl⟩ | ⟨-, ho⟩
    · exact ht (c.known_shelf k _ hmem)
    · exact c.apart h' t' ho k hmem
  case placed =>
    rintro t' (ht' | rfl)
    · rcases c.placed t' ht' with hmem | ⟨h', hh'⟩
      · exact .inl hmem
      · exact .inr ⟨h', update_held_of_some hh hh'⟩
    · exact .inr ⟨h, Function.update_self ..⟩

variable [DecidableEq κ]

/-- A holder that holds nothing takes the first thing of a shelf. -/
theorem Custody.take (c : Custody known home shelf held) {k : κ} {t : τ} {ts : List τ} {h : η}
    (hk : shelf k = t :: ts) (hh : held h = none) :
    Custody known home (Function.update shelf k ts) (Function.update held h (some t)) := by
  have hnodup := c.nodup k
  rw [hk] at hnodup
  obtain ⟨hnot, hts⟩ := List.nodup_cons.mp hnodup
  have htk : t ∈ shelf k := by simp [hk]
  -- what is left on a shelf was there, and is not the thing taken
  have hold (k' : κ) (t' : τ) (hmem : t' ∈ Function.update shelf k ts k') :
      t' ∈ shelf k' ∧ t' ≠ t := by
    by_cases hkk : k' = k
    · subst hkk
      rw [Function.update_self] at hmem
      exact ⟨by simp [hk, hmem], fun heq => hnot (heq ▸ hmem)⟩
    · rw [Function.update_of_ne hkk] at hmem
      refine ⟨hmem, fun heq => hkk ?_⟩
      rw [← c.home_eq k' t' hmem, heq, c.home_eq k t htk]
  constructor
  case nodup =>
    intro k'
    by_cases hkk : k' = k
    · subst hkk
      simpa using hts
    · simpa [Function.update_of_ne hkk] using c.nodup k'
  case home_eq => exact fun k' t' hmem => c.home_eq k' t' (hold k' t' hmem).1
  case known_shelf => exact fun k' t' hmem => c.known_shelf k' t' (hold k' t' hmem).1
  case known_held =>
    intro h' t' heq
    rcases update_held_eq_some heq with ⟨-, rfl⟩ | ⟨-, hold'⟩
    · exact c.known_shelf k _ htk
    · exact c.known_held h' t' hold'
  case holder_inj => exact c.holder_inj_update fun h' ho => c.apart h' t ho k htk
  case apart =>
    intro h' t' heq k' hmem
    obtain ⟨hmem', hne⟩ := hold k' t' hmem
    rcases update_held_eq_some heq with ⟨-, rfl⟩ | ⟨-, ho⟩
    · exact hne rfl
    · exact c.apart h' t' ho k' hmem'
  case placed =>
    intro t' ht'
    by_cases htt : t' = t
    · exact .inr ⟨h, by rw [htt, Function.update_self]⟩
    rcases c.placed t' ht' with hmem | ⟨h', hh'⟩
    · refine .inl ?_
      by_cases hkk : home t' = k
      · rw [hkk, Function.update_self]
        rw [hkk, hk] at hmem
        exact (List.mem_cons.mp hmem).resolve_left htt
      · rwa [Function.update_of_ne hkk]
    · exact .inr ⟨h', update_held_of_some hh hh'⟩

/-- A holder puts its thing on the shelf it belongs on. -/
theorem Custody.file (c : Custody known home shelf held) {t : τ} {h : η}
    (hh : held h = some t) :
    Custody known home (Function.update shelf (home t) (shelf (home t) ++ [t]))
      (Function.update held h none) := by
  have hshelf (k : κ) (t' : τ)
      (hmem : t' ∈ Function.update shelf (home t) (shelf (home t) ++ [t]) k) :
      t' ∈ shelf k ∨ (k = home t ∧ t' = t) := by
    by_cases hk : k = home t
    · subst hk
      rw [Function.update_self] at hmem
      rcases List.mem_append.mp hmem with hmem | hmem
      · exact .inl hmem
      · exact .inr ⟨rfl, List.mem_singleton.mp hmem⟩
    · rw [Function.update_of_ne hk] at hmem
      exact .inl hmem
  have hheld (h' : η) (t' : τ) (heq : Function.update held h none h' = some t') :
      h' ≠ h ∧ held h' = some t' := by
    have hne : h' ≠ h := by
      rintro rfl
      simp at heq
    rw [Function.update_of_ne hne] at heq
    exact ⟨hne, heq⟩
  constructor
  case nodup =>
    intro k
    by_cases hk : k = home t
    · subst hk
      rw [Function.update_self]
      exact List.nodup_append.mpr ⟨c.nodup _, List.nodup_singleton t,
        fun a ha b hb hab => c.apart h t hh _ (List.mem_singleton.mp hb ▸ hab ▸ ha)⟩
    · simpa [Function.update_of_ne hk] using c.nodup k
  case home_eq =>
    intro k t' hmem
    rcases hshelf k t' hmem with hmem | ⟨rfl, rfl⟩
    · exact c.home_eq k t' hmem
    · rfl
  case known_shelf =>
    intro k t' hmem
    rcases hshelf k t' hmem with hmem | ⟨-, rfl⟩
    · exact c.known_shelf k t' hmem
    · exact c.known_held h _ hh
  case known_held => exact fun h' t' heq => c.known_held h' t' (hheld h' t' heq).2
  case holder_inj =>
    exact fun h₁ h₂ t' h1 h2 => c.holder_inj h₁ h₂ t' (hheld h₁ t' h1).2 (hheld h₂ t' h2).2
  case apart =>
    intro h' t' heq k hmem
    obtain ⟨hne, ho⟩ := hheld h' t' heq
    rcases hshelf k t' hmem with hmem | ⟨-, rfl⟩
    · exact c.apart h' t' ho k hmem
    · exact hne (c.holder_inj h' h _ ho hh)
  case placed =>
    intro t' ht'
    by_cases htt : t' = t
    · exact .inl (by simp [htt])
    rcases c.placed t' ht' with hmem | ⟨h', hh'⟩
    · refine .inl ?_
      by_cases hk : home t' = home t
      · rw [hk, Function.update_self]
        exact List.mem_append_left _ (hk ▸ hmem)
      · rwa [Function.update_of_ne hk]
    · refine .inr ⟨h', ?_⟩
      have hne : h' ≠ h := by
        rintro rfl
        exact htt (Option.some.inj (hh'.symm.trans hh))
      rwa [Function.update_of_ne hne]

end Holders

end Moves

end FiberProxy.Lib
