import Mathlib.Data.List.Perm.Basic
import SummerRpc.Message.RoundTrip

/-! # Equality of values

`Same` is an equivalence. Dictionaries may have their items in different orders, so the proofs
go by the size of the values, and not by the derivations.

* `same_dict_iff`, `Same.items`: dictionaries and sequences, by their items;
* `Same.symm`, `Same.trans`.
-/

namespace SummerRpc

namespace PyVal

open List (Forall₂)

/-- The items have the same key and the same value. -/
def SameItem (p q : PyVal × PyVal) : Prop := Same p.1 q.1 ∧ Same p.2 q.2

theorem forall₂_sameItem {xs zs : List (PyVal × PyVal)} :
    Forall₂ SameItem xs zs ↔ Forall₂ Same (xs.map Prod.fst) (zs.map Prod.fst) ∧
      Forall₂ Same (xs.map Prod.snd) (zs.map Prod.snd) := by
  simp only [List.forall₂_map_left_iff, List.forall₂_map_right_iff]
  constructor
  · intro h
    exact ⟨h.imp fun _ _ hitem => hitem.1, h.imp fun _ _ hitem => hitem.2⟩
  · rintro ⟨hkeys, hvalues⟩
    induction hkeys with
    | nil => exact .nil
    | cons hkey _ ih =>
        obtain ⟨hvalue, hrest⟩ := List.forall₂_cons.mp hvalues
        exact .cons ⟨hkey, hvalue⟩ (ih hrest)

theorem same_dict_iff {xs ys : List (PyVal × PyVal)} :
    Same (dict xs) (dict ys) ↔ ∃ zs, zs.Perm ys ∧ Forall₂ SameItem xs zs := by
  constructor
  · intro h
    cases h with
    | refl =>
        have hitems : ∀ p ∈ xs, SameItem p p := fun _ _ => ⟨Same.refl _, Same.refl _⟩
        exact ⟨xs, List.Perm.refl xs, List.forall₂_same.mpr hitems⟩
    | sequence hv _ _ => cases hv
    | dict hperm hkeys hvalues => exact ⟨_, hperm, forall₂_sameItem.mpr ⟨hkeys, hvalues⟩⟩
  · rintro ⟨zs, hperm, hitems⟩
    obtain ⟨hkeys, hvalues⟩ := forall₂_sameItem.mp hitems
    exact Same.dict hperm hkeys hvalues

/-- A sequence is the same as a sequence of the same items. -/
theorem Same.items {v w : PyVal} {xs : List PyVal} (h : Same v w) (hv : v.items? = some xs) :
    ∃ ys, w.items? = some ys ∧ Forall₂ Same xs ys := by
  cases h with
  | refl => exact ⟨xs, hv, List.forall₂_same.mpr fun _ _ => Same.refl _⟩
  | sequence hv' hw hitems =>
      rw [hv] at hv'
      cases hv'
      exact ⟨_, hw, hitems⟩
  | boolInt => cases hv
  | intBool => cases hv
  | unicodeStr => cases hv
  | strUnicode => cases hv
  | dict => cases hv

theorem sizeOf_items {v x : PyVal} {xs : List PyVal} (hv : v.items? = some xs) (hx : x ∈ xs) :
    sizeOf x < sizeOf v := by
  have hmem := List.sizeOf_lt_of_mem hx
  cases v with
  | tuple items =>
      cases hv
      simp only [tuple.sizeOf_spec]
      omega
  | list items =>
      cases hv
      simp only [list.sizeOf_spec]
      omega
  | _ => cases hv

theorem sizeOf_dict {xs : List (PyVal × PyVal)} {p : PyVal × PyVal} (hp : p ∈ xs) :
    sizeOf p.1 < sizeOf (dict xs) ∧ sizeOf p.2 < sizeOf (dict xs) := by
  have hmem := List.sizeOf_lt_of_mem hp
  obtain ⟨key, value⟩ := p
  simp only [Prod.mk.sizeOf_spec] at hmem
  simp only [dict.sizeOf_spec]
  omega

/-- Related to what is related to, where that is so for the items in the middle. -/
theorem forall₂_trans {α : Type} {R : α → α → Prop} {xs ys zs : List α} (hxy : Forall₂ R xs ys)
    (hyz : Forall₂ R ys zs) (h : ∀ y ∈ ys, ∀ x z, R x y → R y z → R x z) : Forall₂ R xs zs := by
  induction hxy generalizing zs with
  | nil =>
      cases hyz
      exact .nil
  | cons hhead htail ih =>
      cases hyz with
      | cons hhead' htail' =>
          exact .cons (h _ List.mem_cons_self _ _ hhead hhead')
            (ih htail' fun y hy => h y (List.mem_cons_of_mem _ hy))

theorem forall₂_symm {α : Type} {R : α → α → Prop} {xs ys : List α} (hxy : Forall₂ R xs ys)
    (h : ∀ y ∈ ys, ∀ x, R x y → R y x) : Forall₂ R ys xs := by
  induction hxy with
  | nil => exact .nil
  | cons hhead _ ih =>
      exact .cons (h _ List.mem_cons_self _ hhead) (ih fun y hy => h y (List.mem_cons_of_mem _ hy))

namespace Same

theorem symm {v w : PyVal} (h : Same v w) : Same w v := by
  induction hn : sizeOf w using Nat.strongRecOn generalizing v w with
  | ind n ih =>
      subst hn
      cases h with
      | refl => exact refl v
      | boolInt b => exact intBool b
      | intBool b => exact boolInt b
      | unicodeStr heq => exact strUnicode heq
      | strUnicode heq => exact unicodeStr heq
      | sequence hv hw hitems =>
          refine sequence hw hv (forall₂_symm hitems ?_)
          intro y hy x hxy
          exact ih _ (sizeOf_items hw hy) hxy rfl
      | @dict xs ys zs hperm hkeys hvalues =>
          have hitems := forall₂_sameItem.mpr ⟨hkeys, hvalues⟩
          have hback : Forall₂ SameItem zs xs := by
            refine forall₂_symm hitems ?_
            rintro q hq p ⟨hkey, hvalue⟩
            have hsize := sizeOf_dict (hperm.mem_iff.mp hq)
            exact ⟨ih _ hsize.1 hkey rfl, ih _ hsize.2 hvalue rfl⟩
          -- the items of the other dictionary in its own order
          obtain ⟨xs', hitems', hperm'⟩ := List.perm_comp_forall₂ hperm.symm hback
          exact same_dict_iff.mpr ⟨xs', hperm', hitems'⟩

/-- Equal to a `str` and a `unicode` is equal to both. -/
theorem eqStr_unique {s : List Char} {t u : List UInt8} (ht : (unicode s).eqStr t = true)
    (hu : (unicode s).eqStr u = true) : t = u := by
  simp only [eqStr, decide_eq_true_eq] at ht hu
  exact map_toNat_injective (ht.1.symm.trans hu.1)

theorem eqStr_unique' {s s' : List Char} {t : List UInt8} (hs : (unicode s).eqStr t = true)
    (hs' : (unicode s').eqStr t = true) : s = s' := by
  simp only [eqStr, decide_eq_true_eq] at hs hs'
  have hmap : s.map (fun c => c.toNat) = s'.map (fun c => c.toNat) := hs.1.trans hs'.1.symm
  exact List.map_injective_iff.mpr (fun _ _ h => Char.toNat_inj.mp h) hmap

theorem of_bool {b : Bool} {w : PyVal} (h : Same (bool b) w) :
    w = bool b ∨ w = int (if b then 1 else 0) := by
  cases h with
  | refl => exact Or.inl rfl
  | boolInt => exact Or.inr rfl
  | sequence hv _ _ => cases hv

theorem of_int {n : ℤ} {w : PyVal} (h : Same (int n) w) :
    w = int n ∨ ∃ b : Bool, n = (if b then 1 else 0) ∧ w = bool b := by
  cases h with
  | refl => exact Or.inl rfl
  | intBool b => exact Or.inr ⟨b, rfl, rfl⟩
  | sequence hv _ _ => cases hv

theorem of_str {t : List UInt8} {w : PyVal} (h : Same (str t) w) :
    w = str t ∨ ∃ s, (unicode s).eqStr t = true ∧ w = unicode s := by
  cases h with
  | refl => exact Or.inl rfl
  | strUnicode heq => exact Or.inr ⟨_, heq, rfl⟩
  | sequence hv _ _ => cases hv

theorem of_unicode {s : List Char} {w : PyVal} (h : Same (unicode s) w) :
    w = unicode s ∨ ∃ t, (unicode s).eqStr t = true ∧ w = str t := by
  cases h with
  | refl => exact Or.inl rfl
  | unicodeStr heq => exact Or.inr ⟨_, heq, rfl⟩
  | sequence hv _ _ => cases hv

theorem trans {u v w : PyVal} (h : Same u v) (h' : Same v w) : Same u w := by
  induction hn : sizeOf v using Nat.strongRecOn generalizing u v w with
  | ind n ih =>
      subst hn
      cases h with
      | refl => exact h'
      | boolInt b =>
          rcases h'.of_int with rfl | ⟨b', hb, rfl⟩
          · exact boolInt b
          · have heq : b = b' := by
              cases b <;> cases b' <;> simp_all
            rw [heq]
            exact refl _
      | intBool b =>
          rcases h'.of_bool with rfl | rfl
          · exact intBool b
          · exact refl _
      | unicodeStr heq =>
          rcases h'.of_str with rfl | ⟨s', heq', rfl⟩
          · exact unicodeStr heq
          · rw [eqStr_unique' heq heq']
            exact refl _
      | strUnicode heq =>
          rcases h'.of_unicode with rfl | ⟨t', heq', rfl⟩
          · exact strUnicode heq
          · rw [eqStr_unique heq heq']
            exact refl _
      | sequence hu hv hitems =>
          obtain ⟨zs, hw, hitems'⟩ := h'.items hv
          refine sequence hu hw (forall₂_trans hitems hitems' ?_)
          intro y hy x z hxy hyz
          exact ih _ (sizeOf_items hv hy) hxy hyz rfl
      | @dict xs ys zs hperm hkeys hvalues =>
          have hitems := forall₂_sameItem.mpr ⟨hkeys, hvalues⟩
          have hsize : ∀ q ∈ zs, sizeOf q.1 < sizeOf (PyVal.dict ys) ∧
              sizeOf q.2 < sizeOf (PyVal.dict ys) := fun q hq => sizeOf_dict (hperm.mem_iff.mp hq)
          have hstep : ∀ ts, Forall₂ SameItem zs ts → Forall₂ SameItem xs ts := by
            intro ts hts
            refine forall₂_trans hitems hts ?_
            rintro q hq p r ⟨hkey, hvalue⟩ ⟨hkey', hvalue'⟩
            exact ⟨ih _ (hsize q hq).1 hkey hkey' rfl, ih _ (hsize q hq).2 hvalue hvalue' rfl⟩
          cases h' with
          | refl => exact same_dict_iff.mpr ⟨zs, hperm, hitems⟩
          | sequence hv _ _ => cases hv
          | @dict _ us ts hperm' hkeys' hvalues' =>
              obtain ⟨ts', hts, hperm''⟩ :=
                List.perm_comp_forall₂ hperm (forall₂_sameItem.mpr ⟨hkeys', hvalues'⟩)
              exact same_dict_iff.mpr ⟨ts', hperm''.trans hperm', hstep ts' hts⟩

end Same

end PyVal

end SummerRpc
