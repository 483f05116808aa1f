/-
# Catalogs of named records

Records kept in the order of their names, compared by code points, at most one of each name.  Two
catalogs that find the same record under every name are equal.
-/

namespace QubitSphere

/-- Records that have a name. -/
class Named (α : Type) where
  nameOf : α → String

export Named (nameOf)

/-- Records in increasing order of their names. -/
structure Catalog (α : Type) [Named α] where
  records : List α := []
  increasing : records.Pairwise (fun a b => nameOf a < nameOf b) := by exact List.Pairwise.nil

namespace Catalog

variable {α : Type} [Named α]

/-- Puts a record in its place, in place of one with the same name. -/
def insertSorted (record : α) : List α → List α
  | [] => [record]
  | first :: rest =>
    if nameOf record < nameOf first then record :: first :: rest
    else if nameOf record = nameOf first then record :: rest
    else first :: insertSorted record rest

/-- Putting a record in its place adds no other record. -/
theorem mem_insertSorted {record a : α} {records : List α}
    (h : a ∈ insertSorted record records) : a = record ∨ a ∈ records := by
  induction records with
  | nil => simpa [insertSorted] using h
  | cons first rest ih =>
    simp only [insertSorted] at h
    split at h
    · simpa using h
    · split at h
      · rcases List.mem_cons.1 h with h | h
        · exact .inl h
        · exact .inr (List.mem_cons_of_mem _ h)
      · rcases List.mem_cons.1 h with h | h
        · exact .inr (h ▸ List.mem_cons_self)
        · exact (ih h).imp_right (List.mem_cons_of_mem _)

/-- **Putting a record in its place keeps the records in the order of their names**, so that the
catalog after it is one again (`insert`). -/
theorem pairwise_insertSorted (record : α) {records : List α}
    (h : records.Pairwise (fun a b => nameOf a < nameOf b)) :
    (insertSorted record records).Pairwise (fun a b => nameOf a < nameOf b) := by
  induction records with
  | nil => simp [insertSorted]
  | cons first rest ih =>
    obtain ⟨hfirst, hrest⟩ := List.pairwise_cons.1 h
    simp only [insertSorted]
    split
    next hlt =>
      refine List.pairwise_cons.2 ⟨fun a ha => ?_, h⟩
      rcases List.mem_cons.1 ha with rfl | ha
      · exact hlt
      · exact String.lt_trans hlt (hfirst a ha)
    next hlt =>
      split
      next heq => exact List.pairwise_cons.2 ⟨fun a ha => heq ▸ hfirst a ha, hrest⟩
      next hne =>
        refine List.pairwise_cons.2 ⟨fun a ha => ?_, ih hrest⟩
        -- what comes behind the first record was there before or is the new one
        rcases mem_insertSorted ha with rfl | ha
        · rcases Std.lt_trichotomy (nameOf first) (nameOf a) with h | h | h
          · exact h
          · exact absurd h.symm hne
          · exact absurd h hlt
        · exact hfirst a ha

/-- The record with a name. -/
def find? (catalog : Catalog α) (name : String) : Option α :=
  catalog.records.find? (nameOf · == name)

/-- Whether there is a record with a name. -/
def contains (catalog : Catalog α) (name : String) : Bool :=
  (catalog.find? name).isSome

/-- The names of the records, in increasing order. -/
def names (catalog : Catalog α) : List String :=
  catalog.records.map nameOf

/-- Stores a record under its name. -/
def insert (catalog : Catalog α) (record : α) : Catalog α where
  records := insertSorted record catalog.records
  increasing := pairwise_insertSorted record catalog.increasing

/-- Takes out the record with a name. -/
def erase (catalog : Catalog α) (name : String) : Catalog α where
  records := catalog.records.filter (nameOf · != name)
  increasing := catalog.increasing.filter _

/-! ### What is found after a change -/

@[simp] theorem records_insert (catalog : Catalog α) (record : α) :
    (catalog.insert record).records = insertSorted record catalog.records :=
  rfl

@[simp] theorem records_erase (catalog : Catalog α) (name : String) :
    (catalog.erase name).records = catalog.records.filter (nameOf · != name) :=
  rfl

/-- **A record is found under its name once it is stored.** -/
theorem find?_insert_self (catalog : Catalog α) (record : α) :
    (catalog.insert record).find? (nameOf record) = some record := by
  rw [find?, records_insert]
  induction catalog.records with
  | nil => simp [insertSorted]
  | cons first rest ih =>
    simp only [insertSorted]
    split
    · simp
    · split
      · simp
      · next hne => simpa [List.find?_cons, Ne.symm hne] using ih

/-- **Storing a record changes nothing under other names.** -/
theorem find?_insert_of_ne (catalog : Catalog α) {record : α} {name : String}
    (h : name ≠ nameOf record) : (catalog.insert record).find? name = catalog.find? name := by
  rw [find?, find?, records_insert]
  induction catalog.records with
  | nil => simp [insertSorted, Ne.symm h]
  | cons first rest ih =>
    simp only [insertSorted]
    split
    · simp [List.find?_cons, Ne.symm h]
    · split
      · next heq => simp [Ne.symm h, ← heq]
      · simp only [List.find?_cons, ih]

/-- **Nothing is found under a name that is taken out.** -/
theorem find?_erase_self (catalog : Catalog α) (name : String) :
    (catalog.erase name).find? name = none := by
  rw [find?, records_erase, List.find?_eq_none]
  intro record h
  simpa using (List.mem_filter.1 h).2

/-- **Taking out a name changes nothing under other names.** -/
theorem find?_erase_of_ne (catalog : Catalog α) {name other : String} (h : other ≠ name) :
    (catalog.erase name).find? other = catalog.find? other := by
  rw [find?, find?, records_erase, List.find?_filter]
  congr 1
  funext record
  by_cases hother : nameOf record = other
  · simp [hother, h]
  · simp [hother]

/-! ### Equality -/

/-- The record found under a name is a record of that name. -/
theorem mem_of_find? {catalog : Catalog α} {name : String} {record : α}
    (h : catalog.find? name = some record) : record ∈ catalog.records ∧ nameOf record = name :=
  ⟨List.mem_of_find?_eq_some h, by simpa using List.find?_some h⟩

/-- Every record is found under its name. -/
theorem find?_of_mem {catalog : Catalog α} {record : α} (h : record ∈ catalog.records) :
    catalog.find? (nameOf record) = some record := by
  obtain ⟨records, increasing⟩ := catalog
  simp only [find?] at h ⊢
  induction records with
  | nil => simp at h
  | cons first rest ih =>
    obtain ⟨hfirst, hrest⟩ := List.pairwise_cons.1 increasing
    rcases List.mem_cons.1 h with rfl | h
    · simp
    · have hne : nameOf first ≠ nameOf record := fun heq =>
        String.lt_irrefl _ (heq ▸ hfirst record h)
      simpa [List.find?_cons, hne] using ih hrest h

/-- Two lists of records in increasing order of names are equal if they have the same members. -/
theorem eq_of_mem_iff {left right : List α}
    (hleft : left.Pairwise (fun a b => nameOf a < nameOf b))
    (hright : right.Pairwise (fun a b => nameOf a < nameOf b))
    (h : ∀ a, a ∈ left ↔ a ∈ right) : left = right := by
  induction left generalizing right with
  | nil =>
    cases right with
    | nil => rfl
    | cons b right => exact absurd ((h b).2 List.mem_cons_self) List.not_mem_nil
  | cons a left ih =>
    cases right with
    | nil => exact absurd ((h a).1 List.mem_cons_self) List.not_mem_nil
    | cons b right =>
      obtain ⟨hbelow, hrest⟩ := List.pairwise_cons.1 hleft
      obtain ⟨hbelow', hrest'⟩ := List.pairwise_cons.1 hright
      -- both first records are the smallest among the same records
      have hab : a = b := by
        rcases List.mem_cons.1 ((h a).1 List.mem_cons_self) with hab | ha
        · exact hab
        · rcases List.mem_cons.1 ((h b).2 List.mem_cons_self) with hba | hb
          · exact hba.symm
          · exact absurd (String.lt_trans (hbelow b hb) (hbelow' a ha)) (String.lt_irrefl _)
      subst hab
      refine congrArg (a :: ·) (ih hrest hrest' fun c => ⟨fun hc => ?_, fun hc => ?_⟩)
      · rcases List.mem_cons.1 ((h c).1 (List.mem_cons_of_mem _ hc)) with rfl | hc'
        · exact absurd (hbelow c hc) (String.lt_irrefl _)
        · exact hc'
      · rcases List.mem_cons.1 ((h c).2 (List.mem_cons_of_mem _ hc)) with rfl | hc'
        · exact absurd (hbelow' c hc) (String.lt_irrefl _)
        · exact hc'

/-- **A catalog is what it finds.** -/
theorem ext_find? {left right : Catalog α} (h : ∀ name, left.find? name = right.find? name) :
    left = right := by
  have hrecords : left.records = right.records :=
    eq_of_mem_iff left.increasing right.increasing fun a =>
      ⟨fun ha => (mem_of_find? (h _ ▸ find?_of_mem ha)).1,
        fun ha => (mem_of_find? ((h _).symm ▸ find?_of_mem ha)).1⟩
  cases left
  cases right
  cases hrecords
  rfl

end Catalog
end QubitSphere
