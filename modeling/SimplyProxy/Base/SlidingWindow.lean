import Mathlib.Algebra.Order.Group.Defs
import Mathlib.Data.List.Basic
import Mathlib.Data.List.Induction

/-!
# Sliding windows over a log of timed entries

A limiter keeps, for one client, a deque of the entries it admitted. Before it
decides on an entry it drops what has left the window of that entry, and it
admits while fewer than `m` entries are left. This module is about one such
deque, over any entries `ι` with a time in an ordered group.

1. `SameAbove`: a pruned deque and the full log of everything admitted agree
   above a cutoff. Its rules say which prunings keep that.
2. `Admissible.inWindow_length_le`: when every admitted entry saw fewer than `m`
   earlier admitted entries in its own window, no window of the same length ever
   holds more than `m` admitted entries.
3. `Sections.admissible`: entries decided in any order of their times. When no
   decision prunes an entry that a later decision still has to count, admission
   is as strict as with the full log. `Sections.admissible_one`: with one slot it
   always is.
-/

namespace SlidingWindow

variable {ι G : Type*}

/-! ## Pruning -/

section Pruning
variable [LinearOrder G] {time : ι → G}

/-- The entries of the log that are newer than `cut`. -/
def newer (time : ι → G) (cut : G) (log : List ι) : List ι :=
  log.filter fun x => cut < time x

@[simp] theorem newer_nil (cut : G) : newer time cut [] = [] := rfl

theorem newer_append (cut : G) (log log' : List ι) :
    newer time cut (log ++ log') = newer time cut log ++ newer time cut log' := by
  simp [newer]

theorem mem_newer {cut : G} {log : List ι} {x : ι} :
    x ∈ newer time cut log ↔ x ∈ log ∧ cut < time x := by
  simp [newer]

theorem newer_sublist (time : ι → G) (cut : G) (log : List ι) :
    (newer time cut log).Sublist log :=
  List.filter_sublist

theorem newer_sublist_of_le {cut cut' : G} (le : cut ≤ cut') (log : List ι) :
    (newer time cut' log).Sublist (newer time cut log) := by
  refine List.monotone_filter_right log fun x above => ?_
  simp only [decide_eq_true_eq] at above ⊢
  exact lt_of_le_of_lt le above

/-- Pruning keeps every entry when all are newer than the cutoff. -/
theorem newer_eq_self {cut : G} {log : List ι} (h : ∀ x ∈ log, cut < time x) :
    newer time cut log = log := by
  simpa [newer, List.filter_eq_self] using h

theorem newer_eq_nil {cut : G} {log : List ι} (h : ∀ x ∈ log, time x ≤ cut) :
    newer time cut log = [] := by
  simpa [newer, List.filter_eq_nil_iff] using h

/-- Two prunings in a row can be exchanged. -/
theorem newer_comm (cut cut' : G) (log : List ι) :
    newer time cut (newer time cut' log) = newer time cut' (newer time cut log) := by
  simp only [newer, List.filter_filter]
  exact List.filter_congr fun _ _ => Bool.and_comm _ _

/-- The deque and the full log hold the same entries newer than `cut`, in the
same order. -/
def SameAbove (time : ι → G) (cut : G) (deque log : List ι) : Prop :=
  newer time cut deque = newer time cut log

theorem SameAbove.refl (cut : G) (log : List ι) : SameAbove time cut log log := rfl

/-- Pruning the deque keeps the agreement when everything in the log above `cut`
survives the pruning. -/
theorem SameAbove.prune {cut cut' : G} {deque log : List ι} (h : SameAbove time cut deque log)
    (survive : ∀ x ∈ log, cut < time x → cut' < time x) :
    SameAbove time cut (newer time cut' deque) log := by
  unfold SameAbove at h ⊢
  rw [newer_comm, h]
  refine newer_eq_self fun x hx => ?_
  obtain ⟨mem, above⟩ := mem_newer.mp hx
  exact survive x mem above

theorem SameAbove.prune_of_le {cut cut' : G} {deque log : List ι}
    (h : SameAbove time cut deque log) (hle : cut' ≤ cut) :
    SameAbove time cut (newer time cut' deque) log :=
  h.prune fun _ _ above => lt_of_le_of_lt hle above

theorem SameAbove.push {cut : G} {deque log : List ι} (h : SameAbove time cut deque log) (x : ι) :
    SameAbove time cut (deque ++ [x]) (log ++ [x]) := by
  unfold SameAbove at h ⊢
  rw [newer_append, newer_append, h]

end Pruning

/-! ## Entries decided in any order of their times -/

section Deciding
variable [AddCommGroup G] [LinearOrder G] {time : ι → G}

/-- What one deque goes through when entries are decided one after another:
`decided` are all entries in the order of their decisions, `admitted` those that
found room, `deque` what is stored afterwards. Every decision first prunes with
the window of its own entry. The times need not be in order. -/
inductive Sections (time : ι → G) (m : ℕ) (w : G) : List ι → List ι → List ι → Prop
  | nil : Sections time m w [] [] []
  | accept {decided admitted deque : List ι} {x : ι} : Sections time m w decided admitted deque →
      (newer time (time x - w) deque).length < m →
      Sections time m w (decided ++ [x]) (admitted ++ [x]) (newer time (time x - w) deque ++ [x])
  | refuse {decided admitted deque : List ι} {x : ι} : Sections time m w decided admitted deque →
      m ≤ (newer time (time x - w) deque).length →
      Sections time m w (decided ++ [x]) admitted (newer time (time x - w) deque)

theorem Sections.admitted_subset {m : ℕ} {w : G} {decided admitted deque : List ι}
    (h : Sections time m w decided admitted deque) : ∀ x ∈ admitted, x ∈ decided := by
  induction h with
  | nil => simp
  | accept _ _ ih =>
    intro y hy
    rcases List.mem_append.mp hy with hy | hy
    · exact List.mem_append_left _ (ih y hy)
    · exact List.mem_append_right _ hy
  | refuse _ _ ih => exact fun y hy => List.mem_append_left _ (ih y hy)

/-- Above every cutoff beyond which no decision has pruned, the deque agrees with
the log of all admitted entries. -/
theorem Sections.sameAbove {m : ℕ} {w : G} {decided admitted deque : List ι}
    (h : Sections time m w decided admitted deque) {cut : G}
    (kept : ∀ a ∈ decided, ∀ b ∈ decided, cut < time a → time b - w < time a) :
    SameAbove time cut deque admitted := by
  induction h with
  | nil => exact .refl cut []
  | @accept decided admitted deque x sec _ ih =>
    refine SameAbove.push (SameAbove.prune (ih ?_) fun a ha above => ?_) x
    · exact fun a ha b hb => kept a (List.mem_append_left _ ha) b (List.mem_append_left _ hb)
    · exact kept a (List.mem_append_left _ (sec.admitted_subset a ha)) x (by simp) above
  | @refuse decided admitted deque x sec _ ih =>
    refine SameAbove.prune (ih ?_) fun a ha above => ?_
    · exact fun a ha b hb => kept a (List.mem_append_left _ ha) b (List.mem_append_left _ hb)
    · exact kept a (List.mem_append_left _ (sec.admitted_subset a ha)) x (by simp) above

/-- Every entry of the log had fewer than `m` earlier entries in the window of
length `w` that ends at its own time. -/
inductive Admissible (time : ι → G) (m : ℕ) (w : G) : List ι → Prop
  | nil : Admissible time m w []
  | snoc {log : List ι} {x : ι} : Admissible time m w log →
      (newer time (time x - w) log).length < m → Admissible time m w (log ++ [x])

/-- When an entry is decided, every earlier decided entry that lies in its window
is still inside the window of each earlier decided entry, or later than it. So no
earlier decision has pruned anything that this one has to count. -/
inductive OrderSafe (time : ι → G) (w : G) : List ι → Prop
  | nil : OrderSafe time w []
  | snoc {decided : List ι} {x : ι} : OrderSafe time w decided →
      (∀ a ∈ decided, ∀ b ∈ decided, time x - w < time a → time b - w < time a) →
      OrderSafe time w (decided ++ [x])

theorem orderSafe_snoc {w : G} {decided : List ι} {x : ι} :
    OrderSafe time w (decided ++ [x]) ↔ OrderSafe time w decided ∧
      ∀ a ∈ decided, ∀ b ∈ decided, time x - w < time a → time b - w < time a := by
  constructor
  · intro h
    generalize equal : decided ++ [x] = all at h
    cases h with
    | nil => simp at equal
    | snoc safe kept =>
      obtain ⟨rfl, last⟩ := List.append_inj' equal rfl
      obtain rfl := List.singleton_inj.mp last
      exact ⟨safe, kept⟩
  · rintro ⟨safe, kept⟩
    exact .snoc safe kept

/-- Decisions in a safe order admit as strictly as with the full log. -/
theorem Sections.admissible {m : ℕ} {w : G} {decided admitted deque : List ι}
    (h : Sections time m w decided admitted deque) (safe : OrderSafe time w decided) :
    Admissible time m w admitted := by
  induction h with
  | nil => exact .nil
  | accept sec room ih =>
    obtain ⟨safe, kept⟩ := orderSafe_snoc.mp safe
    refine .snoc (ih safe) ?_
    rw [← sec.sameAbove kept]
    exact room
  | refuse _ _ ih => exact ih (orderSafe_snoc.mp safe).1

end Deciding

/-! ## Windows -/

section Windows
variable [AddCommGroup G] [LinearOrder G] [IsOrderedAddMonoid G] {time : ι → G}

/-- The entries of the log that fall into the window `(t - w, t]`. -/
def inWindow (time : ι → G) (w t : G) (log : List ι) : List ι :=
  log.filter fun x => t - w < time x ∧ time x ≤ t

/-- Entries that share a window with one that is not older than them are in that
one's own window. -/
theorem inWindow_sublist_newer {w t : G} {x : ι} (hx : time x ≤ t) (log : List ι) :
    (inWindow time w t log).Sublist (newer time (time x - w) log) := by
  refine List.monotone_filter_right log fun y hy => ?_
  simp only [decide_eq_true_eq] at hy ⊢
  exact lt_of_le_of_lt (sub_le_sub_right hx w) hy.1

/-- No window of length `w` holds more than `m` entries of an admissible log. -/
theorem Admissible.inWindow_length_le {m : ℕ} {w : G} {log : List ι}
    (h : Admissible time m w log) (t : G) : (inWindow time w t log).length ≤ m := by
  induction h with
  | nil => simp [inWindow]
  | @snoc log x _ room ih =>
    by_cases hx : t - w < time x ∧ time x ≤ t
    · have shared := (inWindow_sublist_newer (w := w) hx.2 log).length_le
      have : inWindow time w t (log ++ [x]) = inWindow time w t log ++ [x] := by
        simp [inWindow, hx]
      rw [this, List.length_append, List.length_singleton]
      omega
    · have : inWindow time w t (log ++ [x]) = inWindow time w t log := by
        simp [inWindow, hx]
      rw [this]
      exact ih

/-- Decisions in the order of the times are safe. -/
theorem OrderSafe.of_pairwise {w : G} {decided : List ι}
    (h : decided.Pairwise fun a b => time a ≤ time b) : OrderSafe time w decided := by
  induction decided using List.reverseRecOn with
  | nil => exact .nil
  | append_singleton decided x ih =>
    obtain ⟨sorted, -, last⟩ := List.pairwise_append.mp h
    refine .snoc (ih sorted) fun a _ b hb inside => ?_
    have hbx : time b ≤ time x := last b hb x (by simp)
    exact lt_of_le_of_lt (sub_le_sub_right hbx w) inside

/-- With one slot the deque holds exactly the last admitted entry, and no earlier
admitted entry is newer. -/
theorem Sections.one_slot {w : G} (hw : 0 ≤ w) {decided admitted deque : List ι}
    (h : Sections time 1 w decided admitted deque) :
    Admissible time 1 w admitted ∧ ((admitted = [] ∧ deque = []) ∨
      ∃ earlier x, admitted = earlier ++ [x] ∧ deque = [x] ∧ ∀ a ∈ earlier, time a ≤ time x) := by
  induction h with
  | nil => exact ⟨.nil, .inl ⟨rfl, rfl⟩⟩
  | @accept decided admitted deque x _ room ih =>
    obtain ⟨adm, ⟨rfl, rfl⟩ | ⟨earlier, last, rfl, rfl, before⟩⟩ := ih
    · exact ⟨.snoc adm (by simp), .inr ⟨[], x, rfl, rfl, by simp⟩⟩
    · -- the only stored entry was pruned, so it and all before it left the window
      have gone : time last ≤ time x - w := by
        by_contra stays
        simp [newer, not_le.mp stays] at room
      have old : ∀ a ∈ earlier ++ [last], time a ≤ time x - w := by
        intro a ha
        rcases List.mem_append.mp ha with ha | ha
        · exact (before a ha).trans gone
        · rw [List.mem_singleton.mp ha]; exact gone
      have empty : newer time (time x - w) [last] = [] := newer_eq_nil (by simpa using gone)
      refine ⟨.snoc adm (by simp [newer_eq_nil old]), .inr ⟨earlier ++ [last], x, rfl, ?_, ?_⟩⟩
      · rw [empty]; rfl
      · exact fun a ha => (old a ha).trans (sub_le_self _ hw)
  | @refuse decided admitted deque x _ full ih =>
    refine ⟨ih.1, ?_⟩
    rcases ih.2 with ⟨rfl, rfl⟩ | ⟨earlier, last, rfl, rfl, before⟩
    · simp at full
    · refine .inr ⟨earlier, last, rfl, ?_, before⟩
      by_contra changed
      have gone : newer time (time x - w) [last] = [] := by
        by_cases stays : time x - w < time last
        · exact absurd (newer_eq_self (by simpa using stays)) changed
        · exact newer_eq_nil (by simpa using stays)
      simp [gone] at full

/-- With one slot every order of the decisions admits as strictly as with the
full log. -/
theorem Sections.admissible_one {w : G} (hw : 0 ≤ w) {decided admitted deque : List ι}
    (h : Sections time 1 w decided admitted deque) : Admissible time 1 w admitted :=
  (h.one_slot hw).1

end Windows

end SlidingWindow
