import Mathlib.Data.List.Forall2
/-!
# Outcomes in a row

What a sequence of operations gives when none of them fails: a sequence succeeds when its parts do, one after the other
(`bind_eq_ok_iff`), and a list is gone through when every item is (`mapM_eq_ok_iff`).  Otherwise it fails as the first
part that fails does (`bind_eq_error_iff`, `mapM_eq_error_iff`, `foldlM_eq_error_iff`).
-/
namespace Cognitive

theorem map_eq_map_of_forall₂ {α β γ : Type} {f : α → γ} {g : β → γ} {l : List α} {l' : List β}
    (h : List.Forall₂ (fun a b => f a = g b) l l') : l.map f = l'.map g := by
  rw [← List.forall₂_eq_eq_eq, List.forall₂_map_left_iff, List.forall₂_map_right_iff]
  exact h

namespace Outcome

variable {α β ε : Type}

theorem bind_eq_ok_iff {x : Except ε α} {f : α → Except ε β} {b : β} :
    x >>= f = .ok b ↔ ∃ a, x = .ok a ∧ f a = .ok b := by
  cases x with
  | error e => simp [bind, Except.bind]
  | ok a => simp [bind, Except.bind]

theorem map_eq_ok_iff {x : Except ε α} {f : α → β} {b : β} : x.map f = .ok b ↔ ∃ a, x = .ok a ∧ f a = b := by
  cases x with
  | error e => simp [Except.map]
  | ok a => simp [Except.map]

theorem map_eq_error_iff {x : Except ε α} {f : α → β} {e : ε} : x.map f = .error e ↔ x = .error e := by
  cases x with
  | error e' => simp [Except.map]
  | ok a => simp [Except.map]

theorem mapM_eq_ok_iff {f : α → Except ε β} : ∀ {l : List α} {r : List β},
    l.mapM f = .ok r ↔ List.Forall₂ (fun a b => f a = .ok b) l r
  | [], r => by
    rw [List.mapM_nil, List.forall₂_nil_left_iff]
    exact ⟨fun h => (Except.ok.inj h).symm, fun h => congrArg Except.ok h.symm⟩
  | a :: l, r => by
    rw [List.mapM_cons, bind_eq_ok_iff, List.forall₂_cons_left_iff]
    constructor
    · rintro ⟨b, hb, h⟩
      obtain ⟨bs, hbs, h⟩ := bind_eq_ok_iff.1 h
      exact ⟨b, bs, hb, mapM_eq_ok_iff.1 hbs, (Except.ok.inj h).symm⟩
    · rintro ⟨b, bs, hb, hbs, rfl⟩
      exact ⟨b, hb, bind_eq_ok_iff.2 ⟨bs, mapM_eq_ok_iff.2 hbs, rfl⟩⟩

theorem mapM_eq_mapM_of_forall₂ {γ : Type} {f : α → Except ε γ} {g : β → Except ε γ} {l : List α} {l' : List β}
    (h : List.Forall₂ (fun a b => f a = g b) l l') : l.mapM f = l'.mapM g := by
  induction h with
  | nil => rfl
  | cons hab _ ih => rw [List.mapM_cons, List.mapM_cons, hab, ih]

/-- Operations that give what others give, each with a change of its own, give all that those give with the changes. -/
theorem mapM_eq_map_zipWith {γ κ : Type} {f : α → Except ε γ} {g : β → Except ε γ} {change : γ → κ → γ} {k : α → κ}
    {l : List α} {l' : List β} (h : List.Forall₂ (fun a b => f a = (g b).map (change · (k a))) l l') :
    l.mapM f = (l'.mapM g).map fun rs => List.zipWith change rs (l.map k) := by
  induction h with
  | nil => rfl
  | @cons a b l l' hab _ ih =>
    rw [List.mapM_cons, List.mapM_cons, hab, ih]
    cases g b with
    | error e => rfl
    | ok r => cases l'.mapM g <;> rfl

theorem exists_mapM_eq_ok {f : α → Except ε β} : ∀ {l : List α}, (∀ a ∈ l, ∃ b, f a = .ok b) → ∃ r, l.mapM f = .ok r
  | [], _ => ⟨[], rfl⟩
  | a :: l, h => by
    obtain ⟨b, hb⟩ := h a (by simp)
    obtain ⟨r, hr⟩ := exists_mapM_eq_ok (l := l) fun a ha => h a (by simp [ha])
    exact ⟨b :: r, mapM_eq_ok_iff.2 (.cons hb (mapM_eq_ok_iff.1 hr))⟩

theorem exists_eq_ok_of_mapM {f : α → Except ε β} {l : List α} {r : List β} (h : l.mapM f = .ok r) {a : α}
    (ha : a ∈ l) : ∃ b, f a = .ok b := by
  have hall := mapM_eq_ok_iff.1 h
  induction hall with
  | nil => cases ha
  | @cons x y l r hxy hrest ih =>
    rcases List.mem_cons.1 ha with rfl | ha
    · exact ⟨y, hxy⟩
    · exact ih (mapM_eq_ok_iff.2 hrest) ha

theorem mem_iff_of_mapM {f : α → Except ε β} {l : List α} {r : List β} (h : l.mapM f = .ok r) {b : β} :
    b ∈ r ↔ ∃ a ∈ l, f a = .ok b := by
  have hall := mapM_eq_ok_iff.1 h
  clear h
  induction hall with
  | nil => simp
  | @cons x y l r hxy _ ih => simp [ih, hxy, eq_comm]

/-- Results are related, each to those after it, when the operations on any two of the operands give related results. -/
theorem pairwise_of_mapM {f : α → Except ε β} {R : β → β → Prop} {l : List α} {r : List β} (h : l.mapM f = .ok r)
    (hl : l.Pairwise fun a a' => ∀ b b', f a = .ok b → f a' = .ok b' → R b b') : r.Pairwise R := by
  have hall := mapM_eq_ok_iff.1 h
  clear h
  induction hall with
  | nil => exact .nil
  | cons hb hrest ih =>
    obtain ⟨hfirst, hl⟩ := List.pairwise_cons.1 hl
    refine List.Pairwise.cons ?_ (ih hl)
    intro b' hb'
    obtain ⟨a', ha', hab'⟩ := (mem_iff_of_mapM (mapM_eq_ok_iff.2 hrest)).1 hb'
    exact hfirst a' ha' _ _ hb hab'

theorem bind_eq_error_iff {x : Except ε α} {f : α → Except ε β} {e : ε} :
    x >>= f = .error e ↔ x = .error e ∨ ∃ a, x = .ok a ∧ f a = .error e := by
  cases x with
  | error e' => simp [bind, Except.bind]
  | ok a => simp [bind, Except.bind]

theorem mapM_eq_error_iff {f : α → Except ε β} {e : ε} : ∀ {l : List α}, l.mapM f = .error e ↔
    ∃ before a after, l = before ++ a :: after ∧ (∀ b ∈ before, ∃ y, f b = .ok y) ∧ f a = .error e
  | [] => by simp [pure, Except.pure]
  | x :: l => by
    rw [List.mapM_cons, bind_eq_error_iff]
    constructor
    · rintro (hx | ⟨y, hy, h⟩)
      · exact ⟨[], x, l, rfl, by simp, hx⟩
      · rcases bind_eq_error_iff.1 h with h | ⟨ys, -, h⟩
        · obtain ⟨before, a, after, rfl, hb, ha⟩ := mapM_eq_error_iff.1 h
          exact ⟨x :: before, a, after, rfl, List.forall_mem_cons.2 ⟨⟨y, hy⟩, hb⟩, ha⟩
        · cases h
    · rintro ⟨before, a, after, h, hb, ha⟩
      cases before with
      | nil =>
        obtain ⟨rfl, -⟩ := List.cons.inj h
        exact .inl ha
      | cons b before =>
        obtain ⟨rfl, rfl⟩ := List.cons.inj h
        obtain ⟨⟨y, hy⟩, hb⟩ := List.forall_mem_cons.1 hb
        exact .inr ⟨y, hy, bind_eq_error_iff.2 (.inl (mapM_eq_error_iff.2 ⟨before, a, after, rfl, hb, ha⟩))⟩

theorem forM_eq_ok_iff {f : α → Except ε Unit} {l : List α} : forM l f = .ok () ↔ ∀ a ∈ l, f a = .ok () := by
  induction l with
  | nil => simp [pure, Except.pure]
  | cons a l ih =>
    rw [List.forM_cons, bind_eq_ok_iff, List.forall_mem_cons, ← ih]
    exact ⟨fun ⟨_, h⟩ => h, fun h => ⟨_, h⟩⟩

theorem forM_eq_error_iff {f : α → Except ε Unit} {e : ε} : ∀ {l : List α}, forM l f = .error e ↔
    ∃ before a after, l = before ++ a :: after ∧ (∀ b ∈ before, f b = .ok ()) ∧ f a = .error e
  | [] => by simp [pure, Except.pure]
  | x :: l => by
    rw [List.forM_cons, bind_eq_error_iff]
    constructor
    · rintro (hx | ⟨⟨⟩, hx, h⟩)
      · exact ⟨[], x, l, rfl, by simp, hx⟩
      · obtain ⟨before, a, after, rfl, hb, ha⟩ := forM_eq_error_iff.1 h
        exact ⟨x :: before, a, after, rfl, List.forall_mem_cons.2 ⟨hx, hb⟩, ha⟩
    · rintro ⟨before, a, after, h, hb, ha⟩
      cases before with
      | nil =>
        obtain ⟨rfl, -⟩ := List.cons.inj h
        exact .inl ha
      | cons b before =>
        obtain ⟨rfl, rfl⟩ := List.cons.inj h
        obtain ⟨hx, hb⟩ := List.forall_mem_cons.1 hb
        exact .inr ⟨(), hx, forM_eq_error_iff.2 ⟨before, a, after, rfl, hb, ha⟩⟩

theorem foldlM_eq_error_iff {f : β → α → Except ε β} {e : ε} : ∀ {l : List α} {b : β}, l.foldlM f b = .error e ↔
    ∃ before a after c, l = before ++ a :: after ∧ before.foldlM f b = .ok c ∧ f c a = .error e
  | [], b => by simp [pure, Except.pure]
  | x :: l, b => by
    rw [List.foldlM_cons, bind_eq_error_iff]
    constructor
    · rintro (hx | ⟨c, hc, h⟩)
      · exact ⟨[], x, l, b, rfl, rfl, hx⟩
      · obtain ⟨before, a, after, d, rfl, hd, ha⟩ := foldlM_eq_error_iff.1 h
        refine ⟨x :: before, a, after, d, rfl, ?_, ha⟩
        rw [List.foldlM_cons]
        exact bind_eq_ok_iff.2 ⟨c, hc, hd⟩
    · rintro ⟨before, a, after, d, h, hd, ha⟩
      cases before with
      | nil =>
        obtain ⟨rfl, -⟩ := List.cons.inj h
        cases hd
        exact .inl ha
      | cons y before =>
        obtain ⟨rfl, rfl⟩ := List.cons.inj h
        rw [List.foldlM_cons] at hd
        obtain ⟨c, hc, hd⟩ := bind_eq_ok_iff.1 hd
        exact .inr ⟨c, hc, foldlM_eq_error_iff.2 ⟨before, a, after, d, rfl, hd, ha⟩⟩

end Outcome
end Cognitive
