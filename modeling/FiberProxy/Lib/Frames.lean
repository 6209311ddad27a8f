/-
  FiberProxy.Lib.Frames

  Several writers append their frames to one stream, a piece at a time.  While no
  two of them are in the middle of a frame, the stream is a sequence of whole
  frames and the beginning of at most one more.
-/

import FiberProxy.Lib.Lists

namespace FiberProxy.Lib

variable {α : Type}

/-- Whole frames, then perhaps the beginning of one. -/
def Framed (frames : List (List α)) (out : List α) : Prop :=
  ∃ (fs : List (List α)) (t : List α), out = fs.flatten ++ t ∧ (∀ f ∈ fs, f ∈ frames) ∧
    (t = [] ∨ ∃ f ∈ frames, t <+: f)

/-- Where a frame of which `sent` entries are out is cut, if it is. -/
def cutAt (frame : List α) (sent : Nat) : Option Nat :=
  if 0 < sent ∧ sent < frame.length then some sent else none

/-- The stream, given each writer's frame and its cut: a writer in the middle of its
    frame is the only such writer and wrote last. -/
def Aligned (writers : List (List α × Option Nat)) (out : List α) : Prop :=
  ∃ (fs : List (List α)) (t : List α), out = fs.flatten ++ t ∧
    (∀ f ∈ fs, f ∈ writers.map Prod.fst) ∧
    ((t = [] ∧ ∀ w ∈ writers, w.2 = none) ∨
      ∃ k f n, writers[k]? = some (f, some n) ∧ t = f.take n ∧
        ∀ (j : Nat) w, j ≠ k → writers[j]? = some w → w.2 = none)

/-! ## What the writer in the middle of its frame has written -/

/-- The end of the stream after the whole frames, as in `Aligned`. -/
def CutTail (writers : List (List α × Option Nat)) (t : List α) : Prop :=
  (t = [] ∧ ∀ w ∈ writers, w.2 = none) ∨
    ∃ k f n, writers[k]? = some (f, some n) ∧ t = f.take n ∧
      ∀ (j : Nat) w, j ≠ k → writers[j]? = some w → w.2 = none

/-- A writer that joins has written nothing. -/
theorem CutTail.join {writers : List (List α × Option Nat)} {t : List α} (h : CutTail writers t)
    (frame : List α) : CutTail (writers ++ [(frame, none)]) t := by
  rcases h with ⟨ht, hnone⟩ | ⟨k, f, n, hk, ht, hnone⟩
  · exact .inl ⟨ht, forall_mem_snoc hnone rfl⟩
  · refine .inr ⟨k, f, n, getElem?_snoc_of_some hk, ht, fun j w hj hw => ?_⟩
    rcases getElem?_snoc_eq_some hw with hw | ⟨-, rfl⟩
    · exact hnone j w hj hw
    · rfl

/-- A writer that is in the middle of no frame takes another one. -/
theorem CutTail.replace {writers : List (List α × Option Nat)} {t f f' : List α} {k : Nat}
    (h : CutTail writers t) (hk : writers[k]? = some (f, none)) :
    CutTail (writers.set k (f', none)) t := by
  rcases h with ⟨ht, hnone⟩ | ⟨k', g, n, hk', ht, hnone⟩
  · exact .inl ⟨ht, forall_mem_set hnone rfl⟩
  · have hne : k ≠ k' := by
      rintro rfl
      simp [hk] at hk'
    refine .inr ⟨k', g, n, by rw [List.getElem?_set_ne hne, hk'], ht, fun j w hj hw => ?_⟩
    rcases getElem?_set_eq_some hw with ⟨-, rfl⟩ | ⟨-, hw⟩
    · rfl
    · exact hnone j w hj hw

theorem CutTail.eq_take {writers : List (List α × Option Nat)} {t f : List α} {k sent : Nat}
    (h : CutTail writers t) (hk : writers[k]? = some (f, cutAt f sent)) (hlt : sent < f.length)
    (hothers : ∀ (j : Nat) w, j ≠ k → writers[j]? = some w → w.2 = none) : t = f.take sent := by
  rcases h with ⟨rfl, hnone⟩ | ⟨k', f', n', hk', rfl, -⟩
  · have hcut : cutAt f sent = none := hnone _ (List.mem_of_getElem? hk)
    obtain rfl : sent = 0 := by
      by_contra hne
      have hmid : 0 < sent ∧ sent < f.length := ⟨by omega, hlt⟩
      simp [cutAt, hmid] at hcut
    rfl
  · by_cases hkk : k' = k
    · subst hkk
      obtain ⟨rfl, hcut⟩ : f' = f ∧ some n' = cutAt f sent := by simpa [hk'] using hk
      unfold cutAt at hcut
      split at hcut
      · rw [Option.some.inj hcut]
      · simp at hcut
    · simpa using hothers k' _ hkk hk'

/-- The only writer in the middle of a frame goes on with it, perhaps to its end. -/
theorem cutTail_put {writers : List (List α × Option Nat)} {f : List α} {k sent : Nat}
    {w : List α × Option Nat} (hk : writers[k]? = some w) (hpos : 0 < sent)
    (hle : sent ≤ f.length)
    (hothers : ∀ (j : Nat) w, j ≠ k → writers[j]? = some w → w.2 = none) :
    CutTail (writers.set k (f, cutAt f sent)) (if sent = f.length then [] else f.take sent) := by
  have hothers' (j : Nat) (w : List α × Option Nat) (hj : j ≠ k)
      (hw : (writers.set k (f, cutAt f sent))[j]? = some w) : w.2 = none := by
    rw [List.getElem?_set_ne (Ne.symm hj)] at hw
    exact hothers j w hj hw
  have hself : (writers.set k (f, cutAt f sent))[k]? = some (f, cutAt f sent) :=
    List.getElem?_set_self (List.getElem?_eq_some_iff.mp hk).1
  split
  · -- the frame is complete
    rename_i hall
    refine .inl ⟨rfl, fun w hw => ?_⟩
    obtain ⟨j, hj⟩ := List.mem_iff_getElem?.mp hw
    by_cases hjk : j = k
    · rw [hjk, hself] at hj
      rw [← Option.some.inj hj]
      simp [cutAt, hall]
    · exact hothers' j w hjk hj
  · have hcut : cutAt f sent = some sent := if_pos ⟨hpos, by omega⟩
    exact .inr ⟨k, f, sent, by rw [hself, hcut], rfl, hothers'⟩

/-! ## Whole frames -/

theorem Framed.mono {frames frames' : List (List α)} {out : List α} (h : Framed frames out)
    (hsub : frames ⊆ frames') : Framed frames' out := by
  obtain ⟨fs, t, hout, hfs, ht⟩ := h
  refine ⟨fs, t, hout, fun f hf => hsub (hfs f hf), ?_⟩
  rcases ht with ht | ⟨f, hf, ht⟩
  · exact .inl ht
  · exact .inr ⟨f, hsub hf, ht⟩

theorem Aligned.framed {writers : List (List α × Option Nat)} {out : List α}
    (h : Aligned writers out) : Framed (writers.map Prod.fst) out := by
  obtain ⟨fs, t, hout, hfs, ht⟩ := h
  refine ⟨fs, t, hout, hfs, ?_⟩
  rcases ht with ⟨ht, -⟩ | ⟨k, f, n, hk, rfl, -⟩
  · exact .inl ht
  · exact .inr ⟨f, List.mem_map.mpr ⟨_, List.mem_of_getElem? hk, rfl⟩, List.take_prefix n f⟩

theorem aligned_nil {writers : List (List α × Option Nat)} (h : ∀ w ∈ writers, w.2 = none) :
    Aligned writers [] :=
  ⟨[], [], rfl, by simp, .inl ⟨rfl, h⟩⟩

theorem Aligned.join {writers : List (List α × Option Nat)} {out : List α}
    (h : Aligned writers out) (frame : List α) : Aligned (writers ++ [(frame, none)]) out := by
  obtain ⟨fs, t, hout, hfs, ht⟩ := h
  exact ⟨fs, t, hout, fun f hf => by simp [hfs f hf], CutTail.join ht frame⟩

/-- **One writer at a time.** A writer goes on with its frame while no other is in the
    middle of one. -/
theorem Aligned.put {writers : List (List α × Option Nat)} {out f : List α} {k sent n : Nat}
    (h : Aligned writers out) (hk : writers[k]? = some (f, cutAt f sent)) (hn : 0 < n)
    (hle : sent + n ≤ f.length)
    (hothers : ∀ (j : Nat) w, j ≠ k → writers[j]? = some w → w.2 = none) :
    Aligned (writers.set k (f, cutAt f (sent + n))) (out ++ (f.drop sent).take n) := by
  obtain ⟨fs, t, rfl, hfs, ht⟩ := h
  have hfirst : (writers.set k (f, cutAt f (sent + n))).map Prod.fst = writers.map Prod.fst := by
    rw [List.map_set]
    exact set_getElem?_self (by simp [hk])
  have hout : fs.flatten ++ t ++ (f.drop sent).take n = fs.flatten ++ f.take (sent + n) := by
    rw [CutTail.eq_take ht hk (by omega) hothers, List.append_assoc, ← List.take_add]
  have hput := cutTail_put hk (show 0 < sent + n by omega) hle hothers
  rw [hout, Aligned, hfirst]
  by_cases hall : sent + n = f.length
  · rw [if_pos hall] at hput
    exact ⟨fs ++ [f], [], by simp [hall],
      forall_mem_snoc hfs (List.mem_map.mpr ⟨_, List.mem_of_getElem? hk, rfl⟩), hput⟩
  · rw [if_neg hall] at hput
    exact ⟨fs, f.take (sent + n), rfl, hfs, hput⟩

/-! ## Every frame once

A writer is its frame and how much of it is out.  One that has not begun may have another
frame later. -/

/-- The writer's frame is out. -/
def whole (w : List α × Nat) : Bool := decide (0 < w.2 ∧ w.2 = w.1.length)

/-- The writers and where their frames are cut. -/
def cuts (writers : List (List α × Nat)) : List (List α × Option Nat) :=
  writers.map fun w => (w.1, cutAt w.1 w.2)

/-- The stream holds the frames that are out, each of them once, and then what the writer in
    the middle of its frame has written. -/
def Serial (writers : List (List α × Nat)) (out : List α) : Prop :=
  ∃ (fs : List (List α)) (t : List α), out = fs.flatten ++ t ∧
    fs.Perm ((writers.filter whole).map Prod.fst) ∧ CutTail (cuts writers) t

theorem serial_nil : Serial ([] : List (List α × Nat)) [] :=
  ⟨[], [], rfl, .nil, .inl ⟨rfl, by simp [cuts]⟩⟩

theorem cuts_getElem? {writers : List (List α × Nat)} {k : Nat} {f : List α} {sent : Nat}
    (hk : writers[k]? = some (f, sent)) : (cuts writers)[k]? = some (f, cutAt f sent) := by
  rw [cuts, List.getElem?_map, hk]
  rfl

/-- A writer joins that has not begun. -/
theorem Serial.join {writers : List (List α × Nat)} {out : List α} (h : Serial writers out)
    (frame : List α) : Serial (writers ++ [(frame, 0)]) out := by
  obtain ⟨fs, t, hout, hfs, ht⟩ := h
  have hfilter : (writers ++ [(frame, 0)]).filter whole = writers.filter whole := by
    simp [List.filter_append, whole]
  have hcuts : cuts (writers ++ [(frame, 0)]) = cuts writers ++ [(frame, none)] := by
    simp [cuts, cutAt]
  exact ⟨fs, t, hout, hfilter ▸ hfs, hcuts ▸ ht.join frame⟩

/-- A writer that has not begun takes another frame. -/
theorem Serial.replace {writers : List (List α × Nat)} {out f : List α} {k : Nat}
    (h : Serial writers out) (hk : writers[k]? = some (f, 0)) (f' : List α) :
    Serial (writers.set k (f', 0)) out := by
  obtain ⟨fs, t, hout, hfs, ht⟩ := h
  have hfilter : (writers.set k (f', 0)).filter whole = writers.filter whole :=
    filter_set_eq hk (by simp [whole]) (by simp [whole])
  have hcuts : cuts (writers.set k (f', 0)) = (cuts writers).set k (f', none) := by
    simp [cuts, List.map_set, cutAt]
  exact ⟨fs, t, hout, hfilter ▸ hfs, hcuts ▸ ht.replace (cuts_getElem? hk)⟩

/-- **One writer at a time, every frame once.** -/
theorem Serial.put {writers : List (List α × Nat)} {out f : List α} {k sent n : Nat}
    (h : Serial writers out) (hk : writers[k]? = some (f, sent)) (hn : 0 < n)
    (hle : sent + n ≤ f.length)
    (hothers : ∀ (j : Nat) w, j ≠ k → writers[j]? = some w → cutAt w.1 w.2 = none) :
    Serial (writers.set k (f, sent + n)) (out ++ (f.drop sent).take n) := by
  obtain ⟨fs, t, rfl, hfs, ht⟩ := h
  have hkc := cuts_getElem? hk
  have hothers' (j : Nat) (w : List α × Option Nat) (hj : j ≠ k)
      (hw : (cuts writers)[j]? = some w) : w.2 = none := by
    rw [cuts, List.getElem?_map] at hw
    obtain ⟨v, hv, rfl⟩ := Option.map_eq_some_iff.mp hw
    exact hothers j v hj hv
  have hout : fs.flatten ++ t ++ (f.drop sent).take n = fs.flatten ++ f.take (sent + n) := by
    rw [ht.eq_take hkc (by omega) hothers', List.append_assoc, ← List.take_add]
  have hcuts : cuts (writers.set k (f, sent + n)) =
      (cuts writers).set k (f, cutAt f (sent + n)) := by
    rw [cuts, List.map_set]
    rfl
  have hput := cutTail_put hkc (show 0 < sent + n by omega) hle hothers'
  rw [← hcuts] at hput
  have hbefore : whole (f, sent) = false := by
    simp only [whole, decide_eq_false_iff_not]
    omega
  rw [hout]
  by_cases hall : sent + n = f.length
  · rw [if_pos hall] at hput
    have hafter : whole (f, sent + n) = true := by
      simp only [whole, decide_eq_true_eq]
      omega
    refine ⟨fs ++ [f], [], by simp [hall], ?_, hput⟩
    -- the frame that is complete now is counted now
    have hnow := (filter_set_perm hk hbefore hafter).map Prod.fst
    exact (List.perm_append_singleton f fs).trans ((hfs.cons f).trans hnow.symm)
  · rw [if_neg hall] at hput
    have hafter : whole (f, sent + n) = false := by
      simp only [whole, decide_eq_false_iff_not]
      omega
    exact ⟨fs, f.take (sent + n), rfl, by rw [filter_set_eq hk hbefore hafter]; exact hfs, hput⟩

/-- When every frame is out, the stream is these frames in some order. -/
theorem Serial.all {writers : List (List α × Nat)} {out : List α} (h : Serial writers out)
    (hall : ∀ w ∈ writers, whole w = true) :
    ∃ fs : List (List α), out = fs.flatten ∧ fs.Perm (writers.map Prod.fst) := by
  obtain ⟨fs, t, hout, hfs, ht⟩ := h
  obtain rfl : t = [] := by
    rcases ht with ⟨ht, -⟩ | ⟨k, f, n, hk, -⟩
    · exact ht
    · -- a frame that is out is not cut
      rw [cuts, List.getElem?_map] at hk
      obtain ⟨w, hw, heq⟩ := Option.map_eq_some_iff.mp hk
      have hwhole := hall w (List.mem_of_getElem? hw)
      simp only [whole, decide_eq_true_eq] at hwhole
      simp [cutAt, hwhole.2] at heq
  rw [List.filter_eq_self.mpr hall] at hfs
  exact ⟨fs, by simpa using hout, hfs⟩

end FiberProxy.Lib
