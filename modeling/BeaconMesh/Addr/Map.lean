import BeaconMesh.Addr.Basic

/-!
# Tables keyed by address

`AddrMap` is a finite map kept as a list in ascending address order, so a table has one
representation: `AddrMap.ext` says that tables with equal look-ups are equal. Each operation has
one equation through `get?`. `AddrSet` is a set of addresses on the same representation.
-/

namespace BeaconMesh

/-- A finite map from addresses, in ascending order of its keys. -/
structure AddrMap (α : Type) where
  entries : List (Addr × α)
  ascending : entries.Pairwise fun x y => x.1 < y.1

namespace AddrMap

variable {α β : Type}

def find (a : Addr) : List (Addr × α) → Option α
  | [] => none
  | (b, v) :: rest => if b = a then some v else find a rest

/-- Puts a pair in its place, over a pair of the same key. -/
def put (a : Addr) (v : α) : List (Addr × α) → List (Addr × α)
  | [] => [(a, v)]
  | (b, w) :: rest =>
    if a < b then (a, v) :: (b, w) :: rest
    else if a = b then (a, v) :: rest
    else (b, w) :: put a v rest

theorem fst_mem_put {a : Addr} {v : α} {l : List (Addr × α)} {x : Addr × α}
    (h : x ∈ put a v l) : x.1 = a ∨ x ∈ l := by
  induction l with
  | nil => simp_all [put]
  | cons y rest ih =>
    obtain ⟨b, w⟩ := y
    simp only [put] at h
    grind

theorem pairwise_put (a : Addr) (v : α) {l : List (Addr × α)}
    (h : l.Pairwise fun x y => x.1 < y.1) : (put a v l).Pairwise fun x y => x.1 < y.1 := by
  induction l with
  | nil => simp [put]
  | cons y rest ih =>
    obtain ⟨b, w⟩ := y
    rw [List.pairwise_cons] at h
    simp only [put]
    split
    · rename_i lt
      refine List.pairwise_cons.mpr ⟨fun x hx => ?_, List.pairwise_cons.mpr h⟩
      rcases List.mem_cons.mp hx with rfl | hx
      · exact lt
      · exact Addr.lt_trans lt (h.1 x hx)
    · split
      · rename_i eq
        subst eq
        exact List.pairwise_cons.mpr h
      · rename_i nlt ne
        refine List.pairwise_cons.mpr ⟨fun x hx => ?_, ih h.2⟩
        rcases fst_mem_put hx with e | hx
        · simp only [e]
          exact Addr.lt_of_not_lt_of_ne nlt ne
        · exact h.1 x hx

def empty : AddrMap α := ⟨[], .nil⟩

instance : EmptyCollection (AddrMap α) := ⟨empty⟩

instance : Inhabited (AddrMap α) := ⟨empty⟩

def get? (m : AddrMap α) (a : Addr) : Option α := find a m.entries

def contains (m : AddrMap α) (a : Addr) : Bool := (m.get? a).isSome

/-- Stores a value for a key, over an earlier one. -/
def insert (m : AddrMap α) (a : Addr) (v : α) : AddrMap α :=
  ⟨put a v m.entries, pairwise_put a v m.ascending⟩

def filter (p : Addr → α → Bool) (m : AddrMap α) : AddrMap α :=
  ⟨m.entries.filter fun x => p x.1 x.2, m.ascending.filter _⟩

def erase (m : AddrMap α) (a : Addr) : AddrMap α := m.filter fun b _ => b ≠ a

def map (f : α → β) (m : AddrMap α) : AddrMap β :=
  ⟨m.entries.map fun x => (x.1, f x.2), by simpa only [List.pairwise_map] using m.ascending⟩

/-- Changes the value of a key, if it has one. -/
def modify (m : AddrMap α) (a : Addr) (f : α → α) : AddrMap α :=
  match m.get? a with
  | some v => m.insert a (f v)
  | none => m

def toList (m : AddrMap α) : List (Addr × α) := m.entries

def keys (m : AddrMap α) : List Addr := m.entries.map (·.1)

def values (m : AddrMap α) : List α := m.entries.map (·.2)

def size (m : AddrMap α) : Nat := m.entries.length

def isEmpty (m : AddrMap α) : Bool := m.entries.isEmpty

/-! ### Look-ups -/

theorem find_eq_none {a : Addr} {l : List (Addr × α)} (h : ∀ x ∈ l, x.1 ≠ a) :
    find a l = none := by
  induction l with
  | nil => rfl
  | cons y rest ih =>
    rw [find, if_neg (h y (by simp))]
    exact ih fun x hx => h x (List.mem_cons_of_mem _ hx)

theorem find_put (a b : Addr) (v : α) (l : List (Addr × α)) :
    find b (put a v l) = if a = b then some v else find b l := by
  induction l with
  | nil => rfl
  | cons y rest ih =>
    obtain ⟨c, w⟩ := y
    simp only [put]
    split
    · simp only [find]
    · split <;> grind [find]

theorem find_filter (p : Addr → α → Bool) (a : Addr) {l : List (Addr × α)}
    (h : l.Pairwise fun x y => x.1 < y.1) :
    find a (l.filter fun x => p x.1 x.2) = (find a l).filter (p a) := by
  induction l with
  | nil => rfl
  | cons y rest ih =>
    obtain ⟨b, w⟩ := y
    rw [List.pairwise_cons] at h
    have others : b = a → find a rest = none := fun e =>
      find_eq_none fun x hx e' => Addr.lt_irrefl a (by simpa [e, e'] using h.1 x hx)
    by_cases hp : p b w <;> by_cases hb : b = a <;> grind [find]

theorem find_map (f : α → β) (a : Addr) (l : List (Addr × α)) :
    find a (l.map fun x => (x.1, f x.2)) = (find a l).map f := by
  induction l with
  | nil => rfl
  | cons y rest ih => grind [find]

@[simp] theorem get?_empty (a : Addr) : (empty : AddrMap α).get? a = none := rfl

theorem get?_insert (m : AddrMap α) (a b : Addr) (v : α) :
    (m.insert a v).get? b = if a = b then some v else m.get? b := find_put a b v m.entries

@[simp] theorem get?_insert_self (m : AddrMap α) (a : Addr) (v : α) :
    (m.insert a v).get? a = some v := by simp [get?_insert]

theorem get?_insert_ne (m : AddrMap α) {a b : Addr} (v : α) (h : a ≠ b) :
    (m.insert a v).get? b = m.get? b := by simp [get?_insert, h]

@[simp] theorem get?_filter (p : Addr → α → Bool) (m : AddrMap α) (a : Addr) :
    (m.filter p).get? a = (m.get? a).filter (p a) := find_filter p a m.ascending

theorem get?_erase (m : AddrMap α) (a b : Addr) :
    (m.erase a).get? b = if a = b then none else m.get? b := by
  rw [erase, get?_filter]
  by_cases h : a = b
  · subst h
    cases m.get? a <;> simp
  · cases m.get? b <;> simp [h, Ne.symm h]

@[simp] theorem get?_map (f : α → β) (m : AddrMap α) (a : Addr) :
    (m.map f).get? a = (m.get? a).map f := find_map f a m.entries

theorem get?_modify (m : AddrMap α) (a b : Addr) (f : α → α) :
    (m.modify a f).get? b = if a = b then (m.get? b).map f else m.get? b := by
  unfold modify
  split
  · rename_i v h
    rw [get?_insert]
    split
    · rename_i e
      rw [← e, h]
      rfl
    · rfl
  · rename_i h
    split
    · rename_i e
      rw [← e, h]
      rfl
    · rfl

theorem contains_iff {m : AddrMap α} {a : Addr} :
    m.contains a = true ↔ ∃ v, m.get? a = some v := by
  rw [contains, Option.isSome_iff_exists]

theorem mem_toList_iff {m : AddrMap α} {a : Addr} {v : α} :
    (a, v) ∈ m.toList ↔ m.get? a = some v := by
  have aux : ∀ l : List (Addr × α), (l.Pairwise fun x y => x.1 < y.1) →
      ((a, v) ∈ l ↔ find a l = some v) := by
    intro l
    induction l with
    | nil => simp [find]
    | cons y rest ih =>
      obtain ⟨b, w⟩ := y
      intro h
      rw [List.pairwise_cons] at h
      rw [find, List.mem_cons]
      by_cases hb : b = a
      · rw [if_pos hb]
        constructor
        · rintro (e | hx)
          · simp_all
          · exact absurd (h.1 _ hx) (by simpa [hb] using Addr.lt_irrefl a)
        · intro e
          exact .inl (by simp_all)
      · rw [if_neg hb, ← ih h.2]
        constructor
        · rintro (e | hx)
          · exact absurd (congrArg Prod.fst e).symm (by simpa using hb)
          · exact hx
        · exact .inr
  exact aux m.entries m.ascending

theorem mem_keys_iff {m : AddrMap α} {a : Addr} : a ∈ m.keys ↔ m.contains a = true := by
  rw [contains_iff, keys, List.mem_map]
  constructor
  · rintro ⟨⟨b, v⟩, hx, rfl⟩
    exact ⟨v, mem_toList_iff.mp hx⟩
  · rintro ⟨v, hv⟩
    exact ⟨(a, v), mem_toList_iff.mpr hv, rfl⟩

/-! ### One representation -/

theorem eq_of_find {l l' : List (Addr × α)} (h : l.Pairwise fun x y => x.1 < y.1)
    (h' : l'.Pairwise fun x y => x.1 < y.1) (e : ∀ a, find a l = find a l') : l = l' := by
  induction l generalizing l' with
  | nil =>
    cases l' with
    | nil => rfl
    | cons y _ => simpa [find] using e y.1
  | cons x rest ih =>
    cases l' with
    | nil => simpa [find] using e x.1
    | cons y rest' =>
      obtain ⟨a, v⟩ := x
      obtain ⟨b, w⟩ := y
      rw [List.pairwise_cons] at h h'
      have noneBelow : ∀ {c : Addr} {k : List (Addr × α)} {d : Addr},
          (∀ z ∈ k, c < z.1) → d = c ∨ d < c → find d k = none := by
        intro c k d hk hd
        refine find_eq_none fun z hz ez => ?_
        have := hk z hz
        rcases hd with hd | hd
        · exact Addr.ne_of_lt this (by rw [ez, hd])
        · exact Addr.lt_irrefl c (Addr.lt_trans this (by rw [ez]; exact hd))
      have ea := e a
      have eb := e b
      have hab : a = b := by
        by_cases hab : a = b
        · exact hab
        · have hba : ¬ b = a := fun h => hab h.symm
          by_cases lt : a < b
          · simp [find, hba, noneBelow h'.1 (.inr lt)] at ea
          · have gt := Addr.lt_of_not_lt_of_ne lt hab
            simp [find, hab, noneBelow h.1 (.inr gt)] at eb
      subst hab
      have hv : v = w := by simpa [find] using ea
      subst hv
      congr 1
      refine ih h.2 h'.2 fun c => ?_
      by_cases hc : a = c
      · rw [noneBelow h.1 (.inl hc.symm), noneBelow h'.1 (.inl hc.symm)]
      · simpa [find, hc] using e c

@[ext] theorem ext {m m' : AddrMap α} (h : ∀ a, m.get? a = m'.get? a) : m = m' := by
  obtain ⟨l, hl⟩ := m
  obtain ⟨l', hl'⟩ := m'
  have := eq_of_find hl hl' h
  subst this
  rfl

instance [DecidableEq α] : DecidableEq (AddrMap α) := fun m m' =>
  if h : m.entries = m'.entries then
    isTrue (by cases m; cases m'; cases h; rfl)
  else isFalse fun e => h (e ▸ rfl)

end AddrMap

abbrev AddrSet := AddrMap Unit

namespace AddrSet

def add (s : AddrSet) (a : Addr) : AddrSet := s.insert a ()

def ofList (as : List Addr) : AddrSet := as.foldl add .empty

/-- The members of one set that are not in another. -/
def diff (s t : AddrSet) : AddrSet := s.filter fun a _ => ! t.contains a

theorem contains_add (s : AddrSet) (a b : Addr) :
    (s.add a).contains b = (decide (a = b) || s.contains b) := by
  by_cases h : a = b <;> simp [AddrMap.contains, add, AddrMap.get?_insert, h]

theorem contains_ofList {as : List Addr} {a : Addr} :
    (ofList as).contains a = true ↔ a ∈ as := by
  have aux : ∀ (l : List Addr) (s : AddrSet),
      (l.foldl add s).contains a = true ↔ s.contains a = true ∨ a ∈ l := by
    intro l
    induction l with
    | nil => simp
    | cons b rest ih =>
      intro s
      rw [List.foldl_cons, ih, contains_add]
      simp only [Bool.or_eq_true, decide_eq_true_eq, List.mem_cons]
      grind
  rw [ofList, aux]
  simp [AddrMap.contains]

end AddrSet

end BeaconMesh
