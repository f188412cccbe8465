import Mathlib.Data.List.Nodup
import Mathlib.Data.List.Perm.Basic
import Mathlib.Data.List.Sort
import Mathlib.Data.List.Destutter
import Mathlib.Algebra.Order.Field.Rat
import Mathlib.Algebra.BigOperators.Group.Finset
import Mathlib.Tactic.NormNum

namespace AiwcModel

/-- A count stored into a 32-bit `unsigned`. -/
def toUnsigned (n : Nat) : Nat := n % 2 ^ 32

/-- A value converted to a 32-bit `int`, wrapping as the compiler does. -/
def toInt (n : Nat) : Int := ((n % 2 ^ 32 : Nat) : Int) - if n % 2 ^ 32 < 2 ^ 31 then 0 else 2 ^ 32

theorem toUnsigned_lt (n : Nat) : toUnsigned n < 2 ^ 32 := Nat.mod_lt _ (by decide)

theorem toUnsigned_of_lt {n : Nat} (small : n < 2 ^ 32) : toUnsigned n = n := Nat.mod_eq_of_lt small

/-- `std::unordered_map` as its entries in iteration order; a key occurs once. The order
    is one the standard allows: a new key goes to the end and an update stays in place. It is
    not libstdc++'s bucket order, and the bucket array that `clear()` keeps is not modelled. -/
structure UnorderedMap (κ ν : Type) where
  entries : List (κ × ν)
  nodupKeys : (entries.map Prod.fst).Nodup

namespace UnorderedMap

variable {κ ν β : Type}

theorem ext {m₁ m₂ : UnorderedMap κ ν} (same : m₁.entries = m₂.entries) : m₁ = m₂ := by
  cases m₁
  cases m₂
  cases same
  rfl

instance [DecidableEq κ] [DecidableEq ν] : DecidableEq (UnorderedMap κ ν) := fun m₁ m₂ =>
  decidable_of_iff (m₁.entries = m₂.entries) ⟨ext, fun same => same ▸ rfl⟩

def empty : UnorderedMap κ ν := ⟨[], List.nodup_nil⟩

def size (m : UnorderedMap κ ν) : Nat := m.entries.length

/-- The values of a map of counts, summed as `std::accumulate` or a range-for would. -/
def valueSum (m : UnorderedMap κ Nat) : Nat := (m.entries.map Prod.snd).sum

@[simp] theorem entries_empty : (empty : UnorderedMap κ ν).entries = [] := rfl

@[simp] theorem valueSum_empty : valueSum (empty : UnorderedMap κ Nat) = 0 := rfl

variable [DecidableEq κ]

def lookupEntries (key : κ) : List (κ × ν) → Option ν
  | [] => none
  | entry :: rest => if entry.1 = key then some entry.2 else lookupEntries key rest

/-- `m[key] = f(m[key])`: `operator[]` adds a missing key with the default value first. -/
def modifyEntries [Inhabited ν] (key : κ) (f : ν → ν) : List (κ × ν) → List (κ × ν)
  | [] => [(key, f default)]
  | entry :: rest =>
    if entry.1 = key then (entry.1, f entry.2) :: rest else entry :: modifyEntries key f rest

theorem modifyEntries_keys [Inhabited ν] (key : κ) (f : ν → ν) (entries : List (κ × ν)) :
    (modifyEntries key f entries).map Prod.fst =
      if key ∈ entries.map Prod.fst then entries.map Prod.fst else entries.map Prod.fst ++ [key] := by
  induction entries with
  | nil => rfl
  | cons entry rest ih =>
    by_cases same : entry.1 = key
    · simp [modifyEntries, same]
    · by_cases present : key ∈ rest.map Prod.fst
      · simp [modifyEntries, same, ih, present]
      · simp [modifyEntries, same, ih, present, Ne.symm same]

theorem nodup_modifyEntries [Inhabited ν] (key : κ) (f : ν → ν) {entries : List (κ × ν)}
    (nodup : (entries.map Prod.fst).Nodup) : ((modifyEntries key f entries).map Prod.fst).Nodup := by
  rw [modifyEntries_keys]
  split
  · exact nodup
  · rename_i absent
    exact nodup.append (List.nodup_singleton key) (by simpa using absent)

def modify [Inhabited ν] (m : UnorderedMap κ ν) (key : κ) (f : ν → ν) : UnorderedMap κ ν :=
  ⟨modifyEntries key f m.entries, nodup_modifyEntries key f m.nodupKeys⟩

def find? (m : UnorderedMap κ ν) (key : κ) : Option ν := lookupEntries key m.entries

/-- `for (auto const &item : src) dst[item.first] += item.second;` -/
def addEntries (dst : UnorderedMap κ Nat) (src : List (κ × Nat)) : UnorderedMap κ Nat :=
  src.foldl (fun m item => m.modify item.1 (· + item.2)) dst

/-- `for (auto const &item : src) for (auto const &b : item.second) dst[item.first].push_back(b);` -/
def appendEntries (dst : UnorderedMap κ (List β)) (src : List (κ × List β)) :
    UnorderedMap κ (List β) :=
  src.foldl (fun m item => item.2.foldl (fun m' b => m'.modify item.1 (· ++ [b])) m) dst

@[simp] theorem find?_empty (key : κ) : (empty : UnorderedMap κ ν).find? key = none := rfl

theorem lookupEntries_modifyEntries [Inhabited ν] (key k : κ) (f : ν → ν) (entries : List (κ × ν)) :
    lookupEntries k (modifyEntries key f entries) =
      if k = key then some (f ((lookupEntries key entries).getD default))
      else lookupEntries k entries := by
  induction entries with
  | nil => by_cases same : k = key <;> simp [modifyEntries, lookupEntries, same, Ne.symm]
  | cons entry rest ih =>
    by_cases here : entry.1 = key
    · by_cases same : k = key <;> simp [modifyEntries, lookupEntries, here, same, Ne.symm]
    · by_cases found : entry.1 = k
      · have other : k ≠ key := fun h => here (found.trans h)
        simp [modifyEntries, lookupEntries, here, found, other]
      · simp [modifyEntries, lookupEntries, here, found, ih]

theorem find?_modify [Inhabited ν] (m : UnorderedMap κ ν) (key k : κ) (f : ν → ν) :
    (m.modify key f).find? k =
      if k = key then some (f ((m.find? key).getD default)) else m.find? k :=
  lookupEntries_modifyEntries key k f m.entries

@[simp] theorem find?_modify_self [Inhabited ν] (m : UnorderedMap κ ν) (key : κ) (f : ν → ν) :
    (m.modify key f).find? key = some (f ((m.find? key).getD default)) := by
  simp [find?_modify]

theorem find?_modify_of_ne [Inhabited ν] (m : UnorderedMap κ ν) {key k : κ} (f : ν → ν)
    (other : k ≠ key) : (m.modify key f).find? k = m.find? k := by
  simp [find?_modify, other]

theorem lookupEntries_eq_some {key : κ} {value : ν} {entries : List (κ × ν)}
    (nodup : (entries.map Prod.fst).Nodup) :
    lookupEntries key entries = some value ↔ (key, value) ∈ entries := by
  induction entries with
  | nil => simp [lookupEntries]
  | cons entry rest ih =>
    simp only [List.map_cons, List.nodup_cons, List.mem_map] at nodup
    by_cases here : entry.1 = key
    · subst key
      have absent : (entry.1, value) ∉ rest := fun member => nodup.1 ⟨_, member, rfl⟩
      simp [lookupEntries, absent, Prod.ext_iff, eq_comm]
    · simp [lookupEntries, here, ih nodup.2, Prod.ext_iff, Ne.symm here]

theorem mem_entries {m : UnorderedMap κ ν} {key : κ} {value : ν} :
    (key, value) ∈ m.entries ↔ m.find? key = some value :=
  (lookupEntries_eq_some m.nodupKeys).symm

/-- Two maps that agree at every key hold the same entries, in possibly different orders. -/
theorem perm_of_find? {m₁ m₂ : UnorderedMap κ ν} (same : ∀ key, m₁.find? key = m₂.find? key) :
    m₁.entries.Perm m₂.entries := by
  apply (List.perm_ext_iff_of_nodup (m₁.nodupKeys.of_map _) (m₂.nodupKeys.of_map _)).mpr
  rintro ⟨key, value⟩
  rw [mem_entries, mem_entries, same]

theorem sum_modifyEntries [Inhabited ν] (g : ν → Nat) (key : κ) (f : ν → ν)
    (entries : List (κ × ν)) (zero : g default = 0) :
    (((modifyEntries key f entries).map (fun entry => g entry.2)).sum +
      g ((lookupEntries key entries).getD default)) =
      (entries.map (fun entry => g entry.2)).sum + g (f ((lookupEntries key entries).getD default)) := by
  induction entries with
  | nil => simp [modifyEntries, lookupEntries, zero]
  | cons entry rest ih =>
    by_cases here : entry.1 = key
    · simp [modifyEntries, lookupEntries, here]
      omega
    · simp [modifyEntries, lookupEntries, here]
      omega

/-- `m[key] = f(m[key])` changes the sum by what it changes at `key`. -/
theorem valueSum_modify (m : UnorderedMap κ Nat) (key : κ) (f : Nat → Nat) :
    (m.modify key f).valueSum + (m.find? key).getD 0 = m.valueSum + f ((m.find? key).getD 0) := by
  have sum := sum_modifyEntries id key f m.entries rfl
  simp only [id] at sum
  exact sum

theorem valueSum_modify_add (m : UnorderedMap κ Nat) (key : κ) (d : Nat) :
    (m.modify key (· + d)).valueSum = m.valueSum + d := by
  have sum := valueSum_modify m key (· + d)
  omega

/-- `counts[key]++` as an `unsigned`, over a list of keys: a key holds what it held plus the
    number of its occurrences, modulo 2^32, and stays absent when it does not occur. -/
theorem find?_foldl_increment (keys : List κ) (counts : UnorderedMap κ Nat) (k : κ) :
    (keys.foldl (fun counts key => counts.modify key fun c => toUnsigned (c + 1)) counts).find? k =
      if keys.count k = 0 then counts.find? k else some (toUnsigned ((counts.find? k).getD 0 + keys.count k)) := by
  induction keys generalizing counts with
  | nil => simp
  | cons key rest ih =>
    rw [List.foldl_cons, ih]
    by_cases here : key = k
    · subst k
      by_cases none : rest.count key = 0
      · simp [none]
      · simp only [List.count_cons_self, none, find?_modify_self, if_false, Nat.add_eq_zero, one_ne_zero,
          and_false, Option.getD_some, toUnsigned, Nat.default_eq_zero]
        rw [Nat.mod_add_mod, Nat.add_right_comm, Nat.add_assoc]
    · simp [here, find?_modify_of_ne _ _ (Ne.symm here), List.count_cons]

theorem getD_find?_le_valueSum (m : UnorderedMap κ Nat) (key : κ) : (m.find? key).getD 0 ≤ m.valueSum := by
  simp only [find?, valueSum]
  generalize m.entries = entries
  induction entries with
  | nil => simp [lookupEntries]
  | cons entry rest ih =>
    by_cases here : entry.1 = key <;> simp [lookupEntries, here]
    omega

theorem valueSum_addEntries (dst : UnorderedMap κ Nat) (src : List (κ × Nat)) :
    (addEntries dst src).valueSum = dst.valueSum + (src.map Prod.snd).sum := by
  induction src generalizing dst with
  | nil => simp [addEntries]
  | cons item rest ih =>
    simp only [addEntries, List.foldl_cons] at ih ⊢
    rw [ih, valueSum_modify_add]
    simp [Nat.add_assoc]

theorem lookupEntries_of_absent {key : κ} {entries : List (κ × ν)} (absent : key ∉ entries.map Prod.fst) :
    lookupEntries key entries = none := by
  induction entries with
  | nil => rfl
  | cons entry rest ih =>
    simp only [List.map_cons, List.mem_cons, not_or] at absent
    simp [lookupEntries, Ne.symm absent.1, ih absent.2]

theorem find?_pushAll (key k : κ) (bs : List β) (m : UnorderedMap κ (List β)) :
    (bs.foldl (fun m' b => m'.modify key (· ++ [b])) m).find? k =
      if k = key ∧ ¬bs.isEmpty then some ((m.find? key).getD [] ++ bs) else m.find? k := by
  induction bs generalizing m with
  | nil => simp
  | cons b rest ih =>
    rw [List.foldl_cons, ih]
    by_cases same : k = key
    · subst k
      by_cases empty : rest = [] <;> simp [empty] <;> rfl
    · simp [same, find?_modify_of_ne _ _ same]

/-- Appending a map's lists key by key: a key gains its list when the list is not empty. -/
theorem find?_appendEntries (dst : UnorderedMap κ (List β)) (src : List (κ × List β))
    (nodup : (src.map Prod.fst).Nodup) (k : κ) :
    (dst.appendEntries src).find? k =
      if ((lookupEntries k src).getD []).isEmpty then dst.find? k
      else some ((dst.find? k).getD [] ++ (lookupEntries k src).getD []) := by
  induction src generalizing dst with
  | nil => simp [appendEntries, lookupEntries]
  | cons entry rest ih =>
    simp only [List.map_cons, List.nodup_cons] at nodup
    simp only [appendEntries, List.foldl_cons] at ih ⊢
    rw [ih _ nodup.2, find?_pushAll]
    by_cases same : k = entry.1
    · subst k
      rw [lookupEntries_of_absent nodup.1]
      by_cases empty : entry.2 = [] <;> simp [lookupEntries, empty]
    · rw [lookupEntries, if_neg (Ne.symm same)]
      simp [same]

/-- Adding a map's counts key by key: the keys of both, each with the sum of its counts. -/
theorem find?_addEntries (dst : UnorderedMap κ Nat) (src : List (κ × Nat))
    (nodup : (src.map Prod.fst).Nodup) (k : κ) :
    (dst.addEntries src).find? k = Option.merge (· + ·) (dst.find? k) (lookupEntries k src) := by
  induction src generalizing dst with
  | nil =>
    show dst.find? k = _
    cases dst.find? k <;> rfl
  | cons entry rest ih =>
    simp only [List.map_cons, List.nodup_cons] at nodup
    simp only [addEntries, List.foldl_cons] at ih ⊢
    rw [ih _ nodup.2]
    by_cases same : k = entry.1
    · subst k
      rw [lookupEntries_of_absent nodup.1, find?_modify_self]
      cases dst.find? entry.1 <;> simp [lookupEntries, Option.merge]
    · rw [find?_modify_of_ne _ _ same, lookupEntries, if_neg (Ne.symm same)]

theorem isSome_find?_appendEntries (dst : UnorderedMap κ (List β)) (src : UnorderedMap κ (List β)) (k : κ) :
    ((dst.appendEntries src.entries).find? k).isSome =
      ((dst.find? k).isSome || !((src.find? k).getD []).isEmpty) := by
  rw [find?_appendEntries _ _ src.nodupKeys]
  by_cases empty : ((src.find? k).getD []).isEmpty <;> simp only [find?] at empty ⊢ <;> simp [empty]

theorem getD_find?_appendEntries (dst : UnorderedMap κ (List β)) (src : UnorderedMap κ (List β)) (k : κ) :
    ((dst.appendEntries src.entries).find? k).getD [] = (dst.find? k).getD [] ++ (src.find? k).getD [] := by
  rw [find?_appendEntries _ _ src.nodupKeys]
  by_cases empty : ((src.find? k).getD []).isEmpty <;> simp only [find?] at empty ⊢
  · simp [empty, List.isEmpty_iff.mp empty]
  · simp [empty]

end UnorderedMap

end AiwcModel
