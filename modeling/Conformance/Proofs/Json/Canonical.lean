/-
Conformance — documents with sorted members.

The canonical form of a document has the members of every object sorted by key, each key once, so
it is its own canonical form (`canonical_canonical`).  It brings no number and no depth that the
document did not have, hence what can be written as a text faithfully can be written so with its
members sorted (`parse_printSorted`).

Sorting changes no look-up as long as no key comes twice (`lookup_canonical`).
-/
import Conformance.Proofs.Json.RoundTrip

namespace Conformance.Json

/-! ## Members -/

theorem mem_insert {key : String} {v : Json} {m : String × Json} {ms : List (String × Json)}
    (h : m ∈ insert key v ms) : m = (key, v) ∨ m ∈ ms := by
  induction ms with
  | nil => exact .inl (List.mem_singleton.mp h)
  | cons first rest ih =>
      rw [insert] at h
      split_ifs at h with hlt heq
      · exact List.mem_cons.mp h
      · exact (List.mem_cons.mp h).imp_right (List.mem_cons_of_mem _)
      · rcases List.mem_cons.mp h with rfl | hrest
        · exact .inr List.mem_cons_self
        · exact (ih hrest).imp_right (List.mem_cons_of_mem _)

theorem lookup_insert (key k : String) (v : Json) (ms : List (String × Json)) :
    (insert k v ms).lookup key = if key == k then some v else ms.lookup key := by
  induction ms with
  | nil => cases hk : key == k <;> simp [insert, List.lookup_cons, hk]
  | cons m rest ih =>
      obtain ⟨l, w⟩ := m
      rw [insert]
      split
      · cases hk : key == k <;> simp [List.lookup_cons, hk]
      · split
        · rename_i heq
          rw [beq_iff_eq] at heq
          subst heq
          cases hk : key == k <;> simp [List.lookup_cons, hk]
        · rename_i hne
          rw [List.lookup_cons, ih, List.lookup_cons]
          cases hl : key == l with
          | false => rfl
          | true =>
              have hk : (key == k) = false := by
                rw [beq_iff_eq.mp hl]
                exact beq_false_of_ne fun heq => hne (by rw [heq]; exact beq_self_eq_true k)
              simp [hk]

theorem lookup_of_not_mem {key : String} {ms : List (String × Json)}
    (h : key ∉ ms.map (·.1)) : ms.lookup key = none := by
  rw [List.lookup_eq_none_iff]
  intro m hm
  have hne : key ≠ m.1 := by
    rintro rfl
    exact h (List.mem_map_of_mem hm)
  simpa using hne

/-- Sorting members does not change what is found under a key, if no key comes twice. -/
theorem lookup_sortMembers {ms : List (String × Json)} (h : (ms.map (·.1)).Nodup) (key : String) :
    (sortMembers ms).lookup key = ms.lookup key := by
  have hfold : ∀ {ms acc : List (String × Json)}, (ms.map (·.1)).Nodup →
      (ms.foldl (fun acc m => insert m.1 m.2 acc) acc).lookup key
        = (ms.lookup key).or (acc.lookup key) := by
    intro ms
    induction ms with
    | nil => exact fun _ => rfl
    | cons m rest ih =>
        intro acc hkeys
        obtain ⟨hnew, hrest⟩ := List.nodup_cons.mp hkeys
        rw [List.foldl_cons, ih hrest, lookup_insert, List.lookup_cons]
        cases hkey : key == m.1 with
        | false => simp
        | true =>
            rw [beq_iff_eq.mp hkey, lookup_of_not_mem hnew]
            simp
  rw [sortMembers, hfold h, List.lookup_nil, Option.or_none]

theorem keys_canonicalMembers (ms : List (String × Json)) :
    (canonicalMembers ms).map (·.1) = ms.map (·.1) := by
  induction ms with
  | nil => rfl
  | cons m rest ih => rw [canonicalMembers, List.map_cons, List.map_cons, ih]

theorem lookup_canonicalMembers (ms : List (String × Json)) (key : String) :
    (canonicalMembers ms).lookup key = (ms.lookup key).map canonical := by
  induction ms with
  | nil => rfl
  | cons m rest ih =>
      rw [canonicalMembers, List.lookup_cons, List.lookup_cons, ih]
      cases key == m.1 <;> rfl

/-- What is found under a key of a canonical document. -/
theorem lookup_canonical {ms : List (String × Json)} (h : (ms.map (·.1)).Nodup) (key : String) :
    (sortMembers (canonicalMembers ms)).lookup key = (ms.lookup key).map canonical := by
  rw [lookup_sortMembers (by rwa [keys_canonicalMembers]), lookup_canonicalMembers]

theorem sorted_of_lookup {ms : List (String × Json)} {key : String} {v : Json}
    (h : sortedMembers ms = true) (hv : ms.lookup key = some v) : v.sorted = true := by
  induction ms with
  | nil => exact nomatch hv
  | cons m rest ih =>
      obtain ⟨hm, hrest⟩ : m.2.sorted = true ∧ sortedMembers rest = true := by
        simpa [sortedMembers] using h
      rw [List.lookup_cons] at hv
      split at hv
      · cases hv
        exact hm
      · exact ih hrest hv

theorem sorted_of_getElem {xs : List Json} {i : Nat} {v : Json} (h : sortedItems xs = true)
    (hv : xs[i]? = some v) : v.sorted = true := by
  induction xs generalizing i with
  | nil => exact nomatch hv
  | cons x rest ih =>
      obtain ⟨hx, hrest⟩ : x.sorted = true ∧ sortedItems rest = true := by
        simpa [sortedItems] using h
      cases i with
      | zero =>
          cases hv
          exact hx
      | succ i => exact ih hrest hv

/-! ## The canonical form -/

theorem mem_sortMembers {m : String × Json} {ms : List (String × Json)}
    (h : m ∈ sortMembers ms) : m ∈ ms := by
  have hfold : ∀ {ms acc : List (String × Json)},
      m ∈ ms.foldl (fun acc m => insert m.1 m.2 acc) acc → m ∈ ms ∨ m ∈ acc := by
    intro ms
    induction ms with
    | nil => exact fun h => .inr h
    | cons first rest ih =>
        intro acc h
        rcases ih h with hrest | hacc
        · exact .inl (List.mem_cons_of_mem _ hrest)
        · rcases mem_insert hacc with rfl | hold
          · exact .inl List.mem_cons_self
          · exact .inr hold
  exact (hfold h).resolve_right List.not_mem_nil

theorem pairwise_insert {key : String} {v : Json} {ms : List (String × Json)}
    (h : (ms.map (·.1)).Pairwise (· < ·)) :
    ((insert key v ms).map (·.1)).Pairwise (· < ·) := by
  induction ms with
  | nil => exact List.pairwise_singleton _ _
  | cons first rest ih =>
      obtain ⟨hfirst, hrest⟩ := List.pairwise_cons.mp h
      rw [insert]
      split_ifs with hlt heq
      · refine List.pairwise_cons.mpr ⟨fun k hk => ?_, h⟩
        rcases List.mem_cons.mp hk with rfl | hk
        · exact hlt
        · exact String.lt_trans hlt (hfirst k hk)
      · rw [beq_iff_eq] at heq
        subst heq
        exact h
      · refine List.pairwise_cons.mpr ⟨fun k hk => ?_, ih hrest⟩
        obtain ⟨m, hm, rfl⟩ := List.mem_map.mp hk
        rcases mem_insert hm with rfl | hold
        · exact lt_of_le_of_ne (not_lt.mp hlt) fun hsame => heq (beq_iff_eq.mpr hsame.symm)
        · exact hfirst m.1 (List.mem_map_of_mem hold)

theorem pairwise_sortMembers (ms : List (String × Json)) :
    ((sortMembers ms).map (·.1)).Pairwise (· < ·) := by
  have hfold : ∀ (ms acc : List (String × Json)), (acc.map (·.1)).Pairwise (· < ·) →
      ((ms.foldl (fun acc m => insert m.1 m.2 acc) acc).map (·.1)).Pairwise (· < ·) := by
    intro ms
    induction ms with
    | nil => exact fun _ h => h
    | cons m rest ih => exact fun acc h => ih _ (pairwise_insert h)
  exact hfold ms [] List.Pairwise.nil

theorem sortedMembers_iff {ms : List (String × Json)} :
    sortedMembers ms = true ↔ ∀ m ∈ ms, m.2.sorted = true := by
  induction ms with
  | nil => simp [sortedMembers]
  | cons m ms ih =>
      obtain ⟨k, v⟩ := m
      rw [sortedMembers, Bool.and_eq_true, ih, List.forall_mem_cons]

mutual

theorem sorted_canonical : ∀ v : Json, v.canonical.sorted = true
  | .null | .bool _ | .num _ | .str _ => by simp [canonical, sorted]
  | .arr xs => by simp [canonical, sorted, sorted_canonicalItems xs]
  | .obj ms => by
      have hmembers : ∀ m ∈ sortMembers (canonicalMembers ms), m.2.sorted = true :=
        fun m hm => sorted_canonicalMembers ms m (mem_sortMembers hm)
      rw [canonical, sorted, Bool.and_eq_true, decide_eq_true_eq]
      exact ⟨pairwise_sortMembers _, sortedMembers_iff.mpr hmembers⟩

theorem sorted_canonicalItems : ∀ xs : List Json, sortedItems (canonicalItems xs) = true
  | [] => rfl
  | x :: xs => by
      rw [canonicalItems, sortedItems, sorted_canonical x, sorted_canonicalItems xs, Bool.and_self]

theorem sorted_canonicalMembers : ∀ (ms : List (String × Json)),
    ∀ m ∈ canonicalMembers ms, m.2.sorted = true
  | [], _, h => nomatch h
  | (k, v) :: rest, m, h => by
      rw [canonicalMembers] at h
      rcases List.mem_cons.mp h with rfl | hrest
      · exact sorted_canonical v
      · exact sorted_canonicalMembers rest m hrest

end

@[simp]
theorem canonical_canonical (v : Json) : v.canonical.canonical = v.canonical :=
  canonical_of_sorted (sorted_canonical v)

theorem integralMembers_iff {ms : List (String × Json)} :
    integralMembers ms = true ↔ ∀ m ∈ ms, m.2.integral = true := by
  induction ms with
  | nil => simp [integralMembers]
  | cons m ms ih =>
      obtain ⟨k, v⟩ := m
      rw [integralMembers, Bool.and_eq_true, ih, List.forall_mem_cons]

mutual

theorem integral_canonical : ∀ {v : Json}, v.integral = true → v.canonical.integral = true
  | .null, _ | .bool _, _ | .str _, _ => by simp [canonical, integral]
  | .num n, h => by simpa [canonical, integral] using h
  | .arr xs, h => by
      rw [canonical, integral]
      exact integral_canonicalItems h
  | .obj ms, h => by
      rw [canonical, integral, integralMembers_iff]
      exact fun m hm => @integral_canonicalMembers ms h m (mem_sortMembers hm)

theorem integral_canonicalItems : ∀ {xs : List Json}, integralItems xs = true →
    integralItems (canonicalItems xs) = true
  | [], _ => rfl
  | x :: xs, h => by
      rw [integralItems, Bool.and_eq_true] at h
      rw [canonicalItems, integralItems, integral_canonical h.1, integral_canonicalItems h.2,
        Bool.and_self]

theorem integral_canonicalMembers : ∀ {ms : List (String × Json)}, integralMembers ms = true →
    ∀ m ∈ canonicalMembers ms, m.2.integral = true
  | [], _, _, hm => nomatch hm
  | (k, v) :: rest, h, m, hm => by
      rw [integralMembers, Bool.and_eq_true] at h
      rw [canonicalMembers] at hm
      rcases List.mem_cons.mp hm with rfl | hrest
      · exact integral_canonical h.1
      · exact integral_canonicalMembers h.2 m hrest

end

theorem depthMembers_le_iff {n : Nat} {ms : List (String × Json)} :
    depthMembers ms ≤ n ↔ ∀ m ∈ ms, m.2.depth ≤ n := by
  induction ms with
  | nil => simp [depthMembers]
  | cons m ms ih =>
      obtain ⟨k, v⟩ := m
      rw [depthMembers, Nat.max_le, ih, List.forall_mem_cons]

mutual

theorem depth_canonical_le : ∀ v : Json, v.canonical.depth ≤ v.depth
  | .null | .bool _ | .num _ | .str _ => by simp [canonical, depth]
  | .arr xs => by
      rw [canonical, depth, depth]
      exact Nat.succ_le_succ (depth_canonicalItems_le xs)
  | .obj ms => by
      rw [canonical, depth, depth]
      refine Nat.succ_le_succ (depthMembers_le_iff.mpr fun m hm => ?_)
      exact depthMembers_le_iff.mp (depth_canonicalMembers_le ms) m (mem_sortMembers hm)

theorem depth_canonicalItems_le : ∀ xs : List Json, depthItems (canonicalItems xs) ≤ depthItems xs
  | [] => Nat.le_refl _
  | x :: xs => by
      have hx := depth_canonical_le x
      have hxs := depth_canonicalItems_le xs
      rw [canonicalItems, depthItems, depthItems]
      omega

theorem depth_canonicalMembers_le : ∀ ms : List (String × Json),
    depthMembers (canonicalMembers ms) ≤ depthMembers ms
  | [] => Nat.le_refl _
  | (k, v) :: rest => by
      have hv := depth_canonical_le v
      have hrest := depth_canonicalMembers_le rest
      rw [canonicalMembers, depthMembers, depthMembers]
      omega

end

/-- A document written with sorted members is read back so. -/
theorem parse_printSorted {v : Json} (hv : v.integral = true) (hd : v.depth ≤ nestingLimit) :
    parse v.printSorted = .ok v.canonical :=
  parse_print_of_sorted (sorted_canonical v) (integral_canonical hv)
    (Nat.le_trans (depth_canonical_le v) hd)

end Conformance.Json
