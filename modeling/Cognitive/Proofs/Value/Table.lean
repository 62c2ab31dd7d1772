import Mathlib.Data.List.Nodup
import Cognitive.Value.Basic
/-!
# Tables as functions

What a table says of a key after an entry has been put into it (`Table.get?_put`), after another table has been merged
into it (`Table.get?_merge`: what the other says goes first), and after entries have been left out of it
(`Table.get?_only`, `Table.get?_filter`).  Of tables that are merged in a row the last one that has a key gives its
value (`Table.get?_foldl_merge`), and the first one that has keys of some sort gives the first such key
(`Table.find?_keys_foldl_merge`).
-/
namespace Cognitive
namespace Table

def keys (t : Table) : List String := t.map (·.1)

/-- The entries whose keys pass a test. -/
def only (p : String → Bool) (t : Table) : Table := t.filter fun e => p e.1

variable {t extra : Table} {k j : String} {v w : Value}

@[simp] theorem keys_cons : keys ((k, v) :: t) = k :: t.keys := rfl

theorem mem_of_get? : ∀ {t : Table}, t.get? k = some v → (k, v) ∈ t
  | [], h => nomatch h
  | (i, w) :: t, h => by
    rw [get?] at h
    split at h
    · next hi =>
      cases h
      exact hi ▸ List.mem_cons_self
    · exact List.mem_cons_of_mem _ (mem_of_get? h)

theorem get?_eq_none_iff : ∀ {t : Table}, t.get? k = none ↔ k ∉ t.keys
  | [] => by simp [get?, keys]
  | (i, w) :: t => by
    rw [get?, keys, List.map_cons, List.mem_cons, not_or]
    split
    · next hi => simp [hi]
    · next hi => rw [get?_eq_none_iff, and_iff_right fun h => hi h.symm, keys]

theorem exists_get?_iff : (∃ v, t.get? k = some v) ↔ k ∈ t.keys := by
  rw [← Option.isSome_iff_exists, ← not_iff_not, Option.not_isSome_iff_eq_none, get?_eq_none_iff]

/-- In a table with distinct keys every entry is found under its key. -/
theorem get?_of_mem (hn : t.keys.Nodup) (h : (k, v) ∈ t) : t.get? k = some v := by
  induction t with
  | nil => cases h
  | cons e t ih =>
    obtain ⟨i, w⟩ := e
    obtain ⟨hi, hn⟩ := List.nodup_cons.1 hn
    rw [get?]
    rcases List.mem_cons.1 h with h | h
    · cases h
      exact if_pos rfl
    · have hne : i ≠ k := fun heq => hi (List.mem_map.2 ⟨(k, v), h, heq.symm⟩)
      rw [if_neg hne, ih hn h]

/-! ## Putting -/

theorem get?_put : (put k v t).get? j = if k = j then some v else t.get? j := by
  split
  · next h => rw [← h, get?_put_self]
  · next h => exact get?_put_of_ne v t h

theorem mem_put {e : String × Value} : ∀ {t : Table}, e ∈ put k v t → e = (k, v) ∨ e ∈ t
  | [], h => .inl (List.mem_singleton.1 h)
  | (i, w) :: t, h => by
    rw [put] at h
    split at h
    · next hi =>
      rw [List.mem_cons, hi] at h
      exact h.imp_right (List.mem_cons_of_mem _)
    · rcases List.mem_cons.1 h with rfl | h
      · exact .inr List.mem_cons_self
      · exact (mem_put h).imp_right (List.mem_cons_of_mem _)

theorem keys_put : ∀ {t : Table}, (put k v t).keys = if k ∈ t.keys then t.keys else t.keys ++ [k]
  | [] => rfl
  | (i, w) :: t => by
    rw [put]
    by_cases hi : i = k
    · simp [hi, keys]
    · have ih := keys_put (t := t)
      have hk : k ∈ keys ((i, w) :: t) ↔ k ∈ keys t := by
        rw [keys, List.map_cons, List.mem_cons, or_iff_right fun h => hi h.symm, keys]
      rw [if_neg hi, keys, List.map_cons, ← keys, ih, if_congr hk rfl rfl]
      split <;> rfl

theorem nodup_keys_put (hn : t.keys.Nodup) : (put k v t).keys.Nodup := by
  rw [keys_put]
  split
  · exact hn
  · next h => exact List.nodup_append.2 ⟨hn, List.nodup_singleton k, fun a ha b hb =>
      fun heq => h (List.mem_singleton.1 hb ▸ heq ▸ ha)⟩

/-! ## Merging -/

/-- **A table that is merged into another goes before it.** -/
theorem get?_merge (hn : extra.keys.Nodup) : (t.merge extra).get? j = (extra.get? j).or (t.get? j) := by
  induction extra generalizing t with
  | nil => rfl
  | cons e extra ih =>
    obtain ⟨k, v⟩ := e
    obtain ⟨hk, hn⟩ := List.nodup_cons.1 hn
    have hmerge : t.merge ((k, v) :: extra) = (put k v t).merge extra := rfl
    rw [hmerge, ih hn, get?_put, get?]
    split
    · next h => rw [← h, get?_eq_none_iff.2 hk, Option.none_or, Option.some_or]
    · rfl

/-- **Of tables that are merged one after the other, the last that has a key says what is found under it.** -/
theorem get?_foldl_merge : ∀ {layers : List Table} {t : Table}, (∀ layer ∈ layers, layer.keys.Nodup) →
    (layers.foldl merge t).get? k = (layers.reverse.findSome? (·.get? k)).or (t.get? k)
  | [], _, _ => rfl
  | layer :: layers, t, hn => by
    obtain ⟨hl, hn⟩ := List.forall_mem_cons.1 hn
    rw [List.foldl_cons, get?_foldl_merge hn, get?_merge hl, List.reverse_cons, List.findSome?_append,
      List.findSome?_singleton, Option.or_assoc]

theorem find?_keys_put {p : String → Bool} :
    (put k v t).keys.find? p = (t.keys.find? p).or (if p k then some k else none) := by
  rw [keys_put]
  split
  · next hk =>
    split
    · next hp =>
      cases h : t.keys.find? p with
      | none => exact absurd hp (List.find?_eq_none.1 h k hk)
      | some j => rfl
    · exact Option.or_none.symm
  · rw [List.find?_append, List.find?_singleton]

theorem find?_keys_merge {p : String → Bool} :
    (t.merge extra).keys.find? p = (t.keys.find? p).or (extra.keys.find? p) := by
  induction extra generalizing t with
  | nil => exact Option.or_none.symm
  | cons e extra ih =>
    obtain ⟨k, v⟩ := e
    have hmerge : t.merge ((k, v) :: extra) = (put k v t).merge extra := rfl
    rw [hmerge, ih, find?_keys_put, Option.or_assoc, keys_cons, List.find?_cons]
    cases p k <;> rfl

/-- **Of tables that are merged one after the other, the first that has a key of a sort has the first such key.** -/
theorem find?_keys_foldl_merge {p : String → Bool} : ∀ {layers : List Table} {t : Table},
    (layers.foldl merge t).keys.find? p = (t.keys.find? p).or (layers.findSome? (·.keys.find? p))
  | [], _ => Option.or_none.symm
  | layer :: layers, t => by
    rw [List.foldl_cons, find?_keys_foldl_merge, find?_keys_merge, Option.or_assoc, List.findSome?_cons]
    cases layer.keys.find? p <;> rfl

/-! ## Leaving out -/

theorem get?_only {p : String → Bool} : (t.only p).get? j = if p j then t.get? j else none := by
  induction t with
  | nil => simp [only, get?]
  | cons e t ih =>
    obtain ⟨k, v⟩ := e
    rw [only, List.filter_cons]
    by_cases hk : p k
    · rw [if_pos hk, get?, ← only, ih, get?]
      by_cases hj : k = j
      · rw [if_pos hj, if_pos hj, if_pos (hj ▸ hk)]
      · rw [if_neg hj, if_neg hj]
    · rw [if_neg hk, ← only, ih, get?]
      by_cases hj : k = j
      · rw [if_neg (hj ▸ hk), if_neg (hj ▸ hk)]
      · rw [if_neg hj]

theorem nodup_keys_filter (hn : t.keys.Nodup) (p : String × Value → Bool) : (Table.keys (t.filter p)).Nodup :=
  hn.sublist (List.filter_sublist.map _)

theorem keys_only {p : String → Bool} : (t.only p).keys = t.keys.filter p := by
  rw [keys, only, keys, List.filter_map]
  rfl

/-- In a table with distinct keys, leaving out entries changes nothing for the others. -/
theorem get?_filter (hn : t.keys.Nodup) {p : String × Value → Bool} :
    Table.get? (t.filter p) k = (t.get? k).filter fun v => p (k, v) := by
  induction t with
  | nil => rfl
  | cons e t ih =>
    obtain ⟨i, w⟩ := e
    obtain ⟨hi, hn⟩ := List.nodup_cons.1 hn
    rw [List.filter_cons, get?]
    by_cases hk : i = k
    · subst hk
      have hnone : Table.get? t i = none := get?_eq_none_iff.2 hi
      cases hp : p (i, w) with
      | true => simp [get?, Option.filter, hp]
      | false => simp [ih hn, hnone, Option.filter, hp]
    · rw [if_neg hk, ← ih hn]
      split
      · exact if_neg hk
      · rfl

end Table
end Cognitive
