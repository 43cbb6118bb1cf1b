import Mathlib.Data.List.AList
import Mathlib.Data.List.Perm.Lattice

/-! # Indexes of cells

A map that holds each of some cells under the code of the cell.

* `Indexes`: it holds these cells, and nothing else;
* `Indexes.insert`, `Indexes.erase`: a cell that is added, or taken away;
* `Indexes.perm`: the values of the map, each once.
-/

universe u v

variable {α : Type u} {ι : Type v} [DecidableEq α]

/-- The map holds the cells, each under its own code. A cell that is not in use may have any
code, or none. -/
def Indexes (map : AList fun _ : α => ι) (cells : List ι) (code : ι → Option α) : Prop :=
  ∀ a i, map.lookup a = some i ↔ i ∈ cells ∧ code i = some a

namespace Indexes

variable {map : AList fun _ : α => ι} {cells front back : List ι} {code code' : ι → Option α}
  {a : α} {cell : ι}

theorem empty (code : ι → Option α) : Indexes ∅ [] code := by
  intro a i
  rw [AList.lookup_empty]
  constructor
  · intro h
    cases h
  · rintro ⟨h, -⟩
    cases h

/-- Only the codes of the cells matter, and not their order. -/
theorem congr (h : Indexes map cells code) {cells' : List ι} (hperm : cells'.Perm cells)
    (hcode : ∀ i ∈ cells, code' i = code i) : Indexes map cells' code' := by
  intro a i
  rw [h a i, hperm.mem_iff]
  constructor
  · rintro ⟨hi, ha⟩
    exact ⟨hi, (hcode i hi).trans ha⟩
  · rintro ⟨hi, ha⟩
    exact ⟨hi, (hcode i hi).symm.trans ha⟩

/-- A new cell, under a code no cell has. -/
theorem insert (h : Indexes map cells code) (hfree : map.lookup a = none)
    (hcell : code cell = some a) : Indexes (map.insert a cell) (cell :: cells) code := by
  intro b i
  by_cases hb : b = a
  · subst hb
    rw [AList.lookup_insert, List.mem_cons, Option.some_inj]
    constructor
    · rintro rfl
      exact ⟨Or.inl rfl, hcell⟩
    · rintro ⟨rfl | hi, hcode⟩
      · rfl
      · rw [(h b i).mpr ⟨hi, hcode⟩] at hfree
        cases hfree
  · rw [AList.lookup_insert_ne hb, h b i, List.mem_cons]
    constructor
    · rintro ⟨hi, hcode⟩
      exact ⟨Or.inr hi, hcode⟩
    · rintro ⟨rfl | hi, hcode⟩
      · exact absurd (Option.some.inj (hcode.symm.trans hcell)) hb
      · exact ⟨hi, hcode⟩

/-- One of the cells, under its own code. -/
theorem erase (h : Indexes map (front ++ cell :: back) code)
    (hnodup : (front ++ cell :: back).Nodup) (hcell : code cell = some a) :
    Indexes (map.erase a) (front ++ back) code := by
  have hmem : ∀ i, i ∈ front ++ cell :: back ↔ i = cell ∨ i ∈ front ++ back := by
    intro i
    rw [List.perm_middle.mem_iff, List.mem_cons]
  have hout : cell ∉ front ++ back := (List.nodup_middle.mp hnodup).notMem
  intro b i
  by_cases hb : b = a
  · subst hb
    rw [AList.lookup_erase]
    constructor
    · intro hi
      cases hi
    · rintro ⟨hi, hcode⟩
      -- both would be held under the one code
      have hlookup := (h b i).mpr ⟨(hmem i).mpr (Or.inr hi), hcode⟩
      rw [(h b cell).mpr ⟨(hmem cell).mpr (Or.inl rfl), hcell⟩, Option.some_inj] at hlookup
      rw [hlookup] at hout
      exact absurd hi hout
  · rw [AList.lookup_erase_ne hb, h b i, hmem i]
    constructor
    · rintro ⟨rfl | hi, hcode⟩
      · exact absurd (Option.some.inj (hcode.symm.trans hcell)) hb
      · exact ⟨hi, hcode⟩
    · rintro ⟨hi, hcode⟩
      exact ⟨Or.inr hi, hcode⟩

/-- The values of the map are the cells, where each of them has a code. -/
theorem perm (h : Indexes map cells code) (hnodup : cells.Nodup)
    (hcode : ∀ i ∈ cells, (code i).isSome) : (map.entries.map Sigma.snd).Perm cells := by
  have hentry : ∀ p : Sigma fun _ : α => ι, p ∈ map.entries ↔ p.2 ∈ cells ∧ code p.2 = some p.1 :=
    fun p => (AList.mem_lookup_iff (s := map) (a := p.1)).symm.trans (h p.1 p.2)
  have hvalues : (map.entries.map Sigma.snd).Nodup := by
    refine List.Nodup.map_on ?_ map.nodupKeys.nodup
    rintro ⟨a, i⟩ hp ⟨b, j⟩ hq hij
    cases hij
    cases Option.some.inj (((hentry _).mp hp).2.symm.trans ((hentry _).mp hq).2)
    rfl
  refine (List.perm_ext_iff_of_nodup hvalues hnodup).mpr fun i => ?_
  rw [List.mem_map]
  constructor
  · rintro ⟨p, hp, rfl⟩
    exact ((hentry p).mp hp).1
  · intro hi
    obtain ⟨a, ha⟩ := Option.isSome_iff_exists.mp (hcode i hi)
    exact ⟨⟨a, i⟩, (hentry _).mpr ⟨hi, ha⟩, rfl⟩

end Indexes
