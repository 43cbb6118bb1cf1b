import Mathlib.Data.List.Pairwise
import SummerRpc.Message.Equality
import SummerRpc.Transport.Strings

/-! # JSON and msgpack

Both serializers give their module a function for the values it does not know. The two
functions are the same but for dates, of which that of JSON makes the letter `F`.

* `hooked`: a value with what such a function makes of the leaves;
* `Faithful`: the module writes that, and reads what is the same;
* `same_hooked_iff`: the two functions make the same of a value if and only if there is no
  date in it;
* `interchangeable_iff`: so do the serializers of an object, and results for different dates
  are told apart with msgpack only.
-/

namespace SummerRpc

namespace PyVal

open List (Forall₂)

/-! ## Values -/

mutual

/-- The value a module writes: what it does not know itself is what `default` makes of
it. -/
def hooked (default : PyVal → Except Exc PyVal) : PyVal → Except Exc PyVal
  | none => .ok none
  | bool b => .ok (bool b)
  | int n => .ok (int n)
  | float repr => .ok (float repr)
  | str s => .ok (str s)
  | unicode s => .ok (unicode s)
  | tuple items => do
    let items ← hookedAll default items
    return tuple items
  | list items => do
    let items ← hookedAll default items
    return list items
  | dict items => do
    let items ← hookedItems default items
    return dict items
  | value => default value

/-- The items of a sequence. -/
def hookedAll (default : PyVal → Except Exc PyVal) : List PyVal → Except Exc (List PyVal)
  | [] => .ok []
  | item :: items => do
    let item ← hooked default item
    let items ← hookedAll default items
    return item :: items

/-- The items of a dictionary, whose keys are strings. -/
def hookedItems (default : PyVal → Except Exc PyVal) :
    List (PyVal × PyVal) → Except Exc (List (PyVal × PyVal))
  | [] => .ok []
  | (key, value) :: items => do
    let value ← hooked default value
    let items ← hookedItems default items
    return (key, value) :: items

end

/-- Plain values, dates and times, in sequences and in dictionaries with strings as keys. -/
inductive Tree : PyVal → Prop where
  | none : Tree none
  | bool (b : Bool) : Tree (bool b)
  | int (n : ℤ) : Tree (int n)
  | float (repr : List UInt8) : Tree (float repr)
  | str (s : List UInt8) : Tree (str s)
  | unicode (s : List Char) : Tree (unicode s)
  | datetime {year : ℕ} (month day hour minute second : ℕ) : 1900 ≤ year →
      Tree (datetime year month day hour minute second)
  | date {year : ℕ} (month day : ℕ) : 1900 ≤ year → Tree (date year month day)
  | time (hour minute second : ℕ) : Tree (time hour minute second)
  | tuple {items : List PyVal} : (∀ item ∈ items, Tree item) → Tree (tuple items)
  | list {items : List PyVal} : (∀ item ∈ items, Tree item) → Tree (list items)
  /-- no two keys are equal -/
  | dict {items : List (PyVal × PyVal)} : (∀ p ∈ items, p.1.isBasestring = true) →
      items.Pairwise (fun p q => ¬ Same p.1 q.1) → (∀ p ∈ items, Tree p.2) → Tree (dict items)

/-- There is a date in the value that is no datetime. -/
inductive HasDate : PyVal → Prop where
  | date (year month day : ℕ) : HasDate (date year month day)
  | tuple {items : List PyVal} {item : PyVal} : item ∈ items → HasDate item → HasDate (tuple items)
  | list {items : List PyVal} {item : PyVal} : item ∈ items → HasDate item → HasDate (list items)
  | dict {items : List (PyVal × PyVal)} {p : PyVal × PyVal} : p ∈ items → HasDate p.2 →
      HasDate (dict items)

/-- The function makes a string of dates and times. -/
structure Knows (default : PyVal → Except Exc PyVal) : Prop where
  datetime : ∀ year month day hour minute second, 1900 ≤ year →
    ∃ s, default (datetime year month day hour minute second) = .ok (str s)
  date : ∀ year month day, 1900 ≤ year → ∃ s, default (date year month day) = .ok (str s)
  time : ∀ hour minute second, ∃ s, default (time hour minute second) = .ok (str s)

theorem strftime_ok {year : ℕ} (h : 1900 ≤ year) (text : List UInt8) :
    strftime year text = .ok (str text) := if_neg (by omega)

theorem knows_json : Knows jsonDefault where
  datetime := fun _ _ _ _ _ _ h => ⟨_, strftime_ok h _⟩
  date := fun _ _ _ h => ⟨_, strftime_ok h _⟩
  time := fun _ _ _ => ⟨_, strftime_ok (Nat.le_refl 1900) _⟩

theorem knows_msgpack : Knows msgpackDefault where
  datetime := fun _ _ _ _ _ _ h => ⟨_, strftime_ok h _⟩
  date := fun _ _ _ h => ⟨_, strftime_ok h _⟩
  time := fun _ _ _ => ⟨_, strftime_ok (Nat.le_refl 1900) _⟩

variable {default : PyVal → Except Exc PyVal}

theorem bind_eq_ok {α β : Type} {x : Except Exc α} {f : α → Except Exc β} {b : β} :
    (x >>= f) = .ok b ↔ ∃ a, x = .ok a ∧ f a = .ok b := by
  cases x with
  | error ex =>
      constructor
      · intro h
        cases h
      · rintro ⟨a, ha, _⟩
        cases ha
  | ok a =>
      constructor
      · exact fun h => ⟨a, rfl, h⟩
      · rintro ⟨a', ha, h⟩
        cases ha
        exact h

theorem hookedAll_eq_ok {items ws : List PyVal} :
    hookedAll default items = .ok ws ↔ Forall₂ (fun v w => hooked default v = .ok w) items ws := by
  induction items generalizing ws with
  | nil =>
      rw [hookedAll, List.forall₂_nil_left_iff]
      exact ⟨fun h => (Except.ok.inj h).symm, fun h => congrArg Except.ok h.symm⟩
  | cons item items ih =>
      rw [hookedAll, bind_eq_ok]
      constructor
      · rintro ⟨w, hw, h⟩
        obtain ⟨rest, hrest, h⟩ := bind_eq_ok.mp h
        cases h
        exact .cons hw (ih.mp hrest)
      · intro h
        cases h with
        | cons hw hrest =>
            exact ⟨_, hw, bind_eq_ok.mpr ⟨_, ih.mpr hrest, rfl⟩⟩

theorem hookedItems_eq_ok {items ws : List (PyVal × PyVal)} :
    hookedItems default items = .ok ws ↔
      Forall₂ (fun p q => p.1 = q.1 ∧ hooked default p.2 = .ok q.2) items ws := by
  induction items generalizing ws with
  | nil =>
      rw [hookedItems, List.forall₂_nil_left_iff]
      exact ⟨fun h => (Except.ok.inj h).symm, fun h => congrArg Except.ok h.symm⟩
  | cons item items ih =>
      obtain ⟨key, value⟩ := item
      rw [hookedItems, bind_eq_ok]
      constructor
      · rintro ⟨w, hw, h⟩
        obtain ⟨rest, hrest, h⟩ := bind_eq_ok.mp h
        cases h
        exact .cons ⟨rfl, hw⟩ (ih.mp hrest)
      · intro h
        cases h with
        | @cons _ q _ rest hq hrest =>
            obtain ⟨key', w⟩ := q
            obtain ⟨rfl, hw⟩ := hq
            exact ⟨w, hw, bind_eq_ok.mpr ⟨rest, ih.mpr hrest, rfl⟩⟩

/-- A sequence is written item by item. -/
theorem hooked_sequence {sequence : List PyVal → PyVal} {items : List PyVal} {w : PyVal}
    (hsequence : hooked default (sequence items) =
      hookedAll default items >>= fun ws => .ok (sequence ws)) :
    hooked default (sequence items) = .ok w ↔
      ∃ ws, w = sequence ws ∧ Forall₂ (fun v w => hooked default v = .ok w) items ws := by
  rw [hsequence, bind_eq_ok]
  constructor
  · rintro ⟨ws, hws, h⟩
    cases h
    exact ⟨ws, rfl, hookedAll_eq_ok.mp hws⟩
  · rintro ⟨ws, rfl, hws⟩
    exact ⟨ws, hookedAll_eq_ok.mpr hws, rfl⟩

theorem hooked_tuple {items : List PyVal} {w : PyVal} :
    hooked default (tuple items) = .ok w ↔
      ∃ ws, w = tuple ws ∧ Forall₂ (fun v w => hooked default v = .ok w) items ws :=
  hooked_sequence (by rw [hooked]; rfl)

theorem hooked_list {items : List PyVal} {w : PyVal} :
    hooked default (list items) = .ok w ↔
      ∃ ws, w = list ws ∧ Forall₂ (fun v w => hooked default v = .ok w) items ws :=
  hooked_sequence (by rw [hooked]; rfl)

theorem hooked_dict {items : List (PyVal × PyVal)} {w : PyVal} :
    hooked default (dict items) = .ok w ↔
      ∃ ws, w = dict ws ∧
        Forall₂ (fun p q => p.1 = q.1 ∧ hooked default p.2 = .ok q.2) items ws := by
  rw [hooked, bind_eq_ok]
  constructor
  · rintro ⟨ws, hws, h⟩
    cases h
    exact ⟨ws, rfl, hookedItems_eq_ok.mp hws⟩
  · rintro ⟨ws, rfl, hws⟩
    exact ⟨ws, hookedItems_eq_ok.mpr hws, rfl⟩

/-- Each element is related to something, so the list is related to a list. -/
theorem exists_forall₂ {α β : Type} {R : α → β → Prop} {xs : List α}
    (h : ∀ x ∈ xs, ∃ y, R x y) : ∃ ys, Forall₂ R xs ys := by
  induction xs with
  | nil => exact ⟨[], .nil⟩
  | cons x xs ih =>
      obtain ⟨hx, hxs⟩ := List.forall_mem_cons.mp h
      obtain ⟨y, hy⟩ := hx
      obtain ⟨ys, hys⟩ := ih hxs
      exact ⟨y :: ys, .cons hy hys⟩

/-- A function that knows dates and times is enough for every such value. -/
theorem hooked_tree (hdefault : Knows default) {v : PyVal} (h : Tree v) :
    ∃ w, hooked default v = .ok w := by
  induction h with
  | none => exact ⟨_, rfl⟩
  | bool b => exact ⟨_, rfl⟩
  | int n => exact ⟨_, rfl⟩
  | float repr => exact ⟨_, rfl⟩
  | str s => exact ⟨_, rfl⟩
  | unicode s => exact ⟨_, rfl⟩
  | datetime month day hour minute second hyear =>
      obtain ⟨s, hs⟩ := hdefault.datetime _ month day hour minute second hyear
      exact ⟨_, hs⟩
  | date month day hyear =>
      obtain ⟨s, hs⟩ := hdefault.date _ month day hyear
      exact ⟨_, hs⟩
  | time hour minute second =>
      obtain ⟨s, hs⟩ := hdefault.time hour minute second
      exact ⟨_, hs⟩
  | tuple _ ih =>
      obtain ⟨ws, hws⟩ := exists_forall₂ ih
      exact ⟨_, hooked_tuple.mpr ⟨ws, rfl, hws⟩⟩
  | list _ ih =>
      obtain ⟨ws, hws⟩ := exists_forall₂ ih
      exact ⟨_, hooked_list.mpr ⟨ws, rfl, hws⟩⟩
  | @dict items _ _ _ ih =>
      have hitems : ∀ p ∈ items, ∃ q : PyVal × PyVal, p.1 = q.1 ∧ hooked default p.2 = .ok q.2 := by
        intro p hp
        obtain ⟨w, hw⟩ := ih p hp
        exact ⟨(p.1, w), rfl, hw⟩
      obtain ⟨ws, hws⟩ := exists_forall₂ hitems
      exact ⟨_, hooked_dict.mpr ⟨ws, rfl, hws⟩⟩

/-! ## What the two functions make of a value -/

theorem forall₂_mem_left {α β : Type} {R : α → β → Prop} {xs : List α} {ys : List β}
    (h : Forall₂ R xs ys) {x : α} (hx : x ∈ xs) : ∃ y ∈ ys, R x y := by
  induction h with
  | nil => cases hx
  | cons hhead _ ih =>
      rcases List.mem_cons.mp hx with rfl | hrest
      · exact ⟨_, List.mem_cons_self, hhead⟩
      · obtain ⟨y, hy, hxy⟩ := ih hrest
        exact ⟨y, List.mem_cons_of_mem _ hy, hxy⟩

/-- Two lists that are made of the same one agree when their elements do, each with its
own. -/
theorem forall₂_iff_of_both {α β : Type} {R S : α → β → Prop} {T : β → β → Prop} {Q : α → Prop}
    {xs : List α} {ys zs : List β} (hys : Forall₂ R xs ys) (hzs : Forall₂ S xs zs)
    (h : ∀ x ∈ xs, ∀ y z, R x y → S x z → (T y z ↔ Q x)) : Forall₂ T ys zs ↔ ∀ x ∈ xs, Q x := by
  induction hys generalizing zs with
  | nil =>
      cases hzs
      exact ⟨fun _ x hx => absurd hx List.not_mem_nil, fun _ => .nil⟩
  | cons hy _ ih =>
      cases hzs with
      | cons hz hzs =>
          rw [List.forall₂_cons, List.forall_mem_cons, h _ List.mem_cons_self _ _ hy hz,
            ih hzs fun x hx => h x (List.mem_cons_of_mem _ hx)]

theorem same_str_iff {s t : List UInt8} : Same (str s) (str t) ↔ s = t := by
  constructor
  · intro h
    rcases h.of_str with heq | ⟨_, _, heq⟩
    · cases heq
      rfl
    · cases heq
  · rintro rfl
    exact Same.refl _

/-- A date of msgpack is never the letter `F`. -/
theorem strftimeF_ne (year month day : ℕ) : bytes "F" ≠ strftimeF year month day := by
  intro h
  have hdash : (45 : UInt8) ∈ strftimeF year month day := by
    unfold strftimeF
    exact List.mem_append_left _ (List.mem_append_right _ (by decide))
  rw [← h] at hdash
  revert hdash
  decide

theorem same_sequence_iff {v w : PyVal} {xs ys : List PyVal} (hv : v.items? = some xs)
    (hw : w.items? = some ys) : Same v w ↔ Forall₂ Same xs ys := by
  constructor
  · intro h
    obtain ⟨zs, hzs, hitems⟩ := h.items hv
    rw [hw] at hzs
    cases hzs
    exact hitems
  · exact fun h => Same.sequence hv hw h

theorem same_tuple_iff {xs ys : List PyVal} : Same (tuple xs) (tuple ys) ↔ Forall₂ Same xs ys :=
  same_sequence_iff rfl rfl

theorem same_list_iff {xs ys : List PyVal} : Same (list xs) (list ys) ↔ Forall₂ Same xs ys :=
  same_sequence_iff rfl rfl

/-- Two dictionaries made of the same one agree when their values do, each under its own
key. -/
theorem same_dict_of_both {items ps qs : List (PyVal × PyVal)} {R S : PyVal → PyVal → Prop}
    {Q : PyVal → Prop} (hkeys : items.Pairwise fun p q => ¬ Same p.1 q.1)
    (hps : Forall₂ (fun p q => p.1 = q.1 ∧ R p.2 q.2) items ps)
    (hqs : Forall₂ (fun p q => p.1 = q.1 ∧ S p.2 q.2) items qs)
    (h : ∀ p ∈ items, ∀ a b, R p.2 a → S p.2 b → (Same a b ↔ Q p.2)) :
    Same (dict ps) (dict qs) ↔ ∀ p ∈ items, Q p.2 := by
  constructor
  · intro hsame p hp
    obtain ⟨xs, hxs, hleft, _⟩ := hsame.of_dict
    cases hxs
    obtain ⟨a, ha, hkey, hvalue⟩ := forall₂_mem_left hps hp
    obtain ⟨b, hb, hkey', hvalue'⟩ := hleft a ha
    obtain ⟨p', hp', hkey'', hmade⟩ := forall₂_mem_left hqs.flip hb
    -- the keys are the same, so it is one item
    have heq : p = p' := by
      by_contra hne
      have : Std.Symm fun p q : PyVal × PyVal => ¬ Same p.1 q.1 :=
        ⟨fun _ _ hdiff hsame => hdiff hsame.symm⟩
      have hdiff := hkeys.forall hp hp' hne
      rw [hkey, hkey''] at hdiff
      exact hdiff hkey'
    subst heq
    exact (h p hp a.2 b.2 hvalue hmade).mp hvalue'
  · intro hall
    refine same_dict_iff.mpr ⟨qs, List.Perm.refl qs, ?_⟩
    refine (forall₂_iff_of_both (Q := fun _ => True) hps hqs ?_).mpr fun _ _ => trivial
    rintro p hp a b ⟨hkey, hvalue⟩ ⟨hkey', hvalue'⟩
    refine ⟨fun _ => trivial, fun _ => ⟨?_, ?_⟩⟩
    · rw [← hkey, ← hkey']
      exact Same.refl _
    · exact (h p hp a.2 b.2 hvalue hvalue').mpr (hall p hp)

/-- What both functions leave alone, or make the same of. -/
theorem same_hooked_leaf {v a b : PyVal} (hnot : ¬ HasDate v)
    (heq : hooked jsonDefault v = hooked msgpackDefault v) (ha : hooked jsonDefault v = .ok a)
    (hb : hooked msgpackDefault v = .ok b) : Same a b ↔ ¬ HasDate v := by
  have hsame : Same a b := by
    rw [heq, hb] at ha
    cases ha
    exact Same.refl _
  exact ⟨fun _ => hnot, fun _ => hsame⟩

/-- The two functions make the same of a value if and only if there is no date in it. -/
theorem same_hooked_iff {v a b : PyVal} (hv : Tree v) (ha : hooked jsonDefault v = .ok a)
    (hb : hooked msgpackDefault v = .ok b) : Same a b ↔ ¬ HasDate v := by
  induction hv generalizing a b with
  | none => exact same_hooked_leaf (by rintro ⟨⟩) rfl ha hb
  | bool c => exact same_hooked_leaf (by rintro ⟨⟩) rfl ha hb
  | int n => exact same_hooked_leaf (by rintro ⟨⟩) rfl ha hb
  | float repr => exact same_hooked_leaf (by rintro ⟨⟩) rfl ha hb
  | str s => exact same_hooked_leaf (by rintro ⟨⟩) rfl ha hb
  | unicode s => exact same_hooked_leaf (by rintro ⟨⟩) rfl ha hb
  | datetime month day hour minute second hyear =>
      exact same_hooked_leaf (by rintro ⟨⟩) rfl ha hb
  | time hour minute second => exact same_hooked_leaf (by rintro ⟨⟩) rfl ha hb
  | @date year month day hyear =>
      have hjson := (strftime_ok hyear (bytes "F")).symm.trans ha
      have hmsgpack := (strftime_ok hyear (strftimeF year month day)).symm.trans hb
      cases hjson
      cases hmsgpack
      rw [same_str_iff]
      exact ⟨fun h => absurd h (strftimeF_ne year month day),
        fun h => absurd (HasDate.date year month day) h⟩
  | @tuple items _ ih =>
      obtain ⟨as, rfl, has⟩ := hooked_tuple.mp ha
      obtain ⟨bs, rfl, hbs⟩ := hooked_tuple.mp hb
      rw [same_tuple_iff, forall₂_iff_of_both has hbs fun x hx _ _ hy hz => ih x hx hy hz]
      constructor
      · intro hall hdate
        cases hdate with
        | tuple hitem hdate => exact hall _ hitem hdate
      · exact fun hnot item hitem hdate => hnot (HasDate.tuple hitem hdate)
  | @list items _ ih =>
      obtain ⟨as, rfl, has⟩ := hooked_list.mp ha
      obtain ⟨bs, rfl, hbs⟩ := hooked_list.mp hb
      rw [same_list_iff, forall₂_iff_of_both has hbs fun x hx _ _ hy hz => ih x hx hy hz]
      constructor
      · intro hall hdate
        cases hdate with
        | list hitem hdate => exact hall _ hitem hdate
      · exact fun hnot item hitem hdate => hnot (HasDate.list hitem hdate)
  | @dict items _ hkeys _ ih =>
      obtain ⟨as, rfl, has⟩ := hooked_dict.mp ha
      obtain ⟨bs, rfl, hbs⟩ := hooked_dict.mp hb
      have hboth := same_dict_of_both (R := fun v w => hooked jsonDefault v = .ok w)
        (S := fun v w => hooked msgpackDefault v = .ok w) (Q := fun v => ¬ HasDate v) hkeys has hbs
        fun p hp _ _ hy hz => ih p hp hy hz
      rw [hboth]
      constructor
      · intro hall hdate
        cases hdate with
        | dict hp hdate => exact hall _ hp hdate
      · exact fun hnot p hp hdate => hnot (HasDate.dict hp hdate)

/-! ## Dates in decimal -/

theorem dash_notMem_zeroPadded (width n : ℕ) : 45 ∉ zeroPadded width n := by
  intro h
  have hdigit : isDigit 45 = true := by
    unfold zeroPadded at h
    rcases List.mem_append.mp h with hzero | hdecimal
    · exact absurd (List.eq_of_mem_replicate hzero) (by decide)
    · exact isDigit_of_mem_decimal hdecimal
  revert hdigit
  decide

theorem digitsValue_zeroPadded (width n : ℕ) : digitsValue (zeroPadded width n) = n := by
  have hzeros : ∀ k : ℕ, (List.replicate k (48 : UInt8)).foldl
      (fun n b => 10 * n + (b.toNat - 48)) 0 = 0 := by
    intro k
    induction k with
    | zero => rfl
    | succ k ih => exact ih
  have hdigits : zeroPadded width n =
      List.replicate (width - (decimal n).length) 48 ++ decimal n := rfl
  rw [hdigits, digitsValue, List.foldl_append, hzeros]
  exact digitsValue_decimal n

/-- What stands before and after the first dash. -/
theorem dash_inj {s s' t t' : List UInt8} (hs : 45 ∉ s) (hs' : 45 ∉ s')
    (h : s ++ 45 :: t = s' ++ 45 :: t') : s = s' ∧ t = t' := by
  induction s generalizing s' with
  | nil =>
      cases s' with
      | nil => exact ⟨rfl, (List.cons_eq_cons.mp h).2⟩
      | cons b s' =>
          have hb := (List.cons_eq_cons.mp h).1
          subst hb
          exact absurd List.mem_cons_self hs'
  | cons b s ih =>
      cases s' with
      | nil =>
          have hb := (List.cons_eq_cons.mp h).1
          subst hb
          exact absurd List.mem_cons_self hs
      | cons b' s' =>
          obtain ⟨rfl, hrest⟩ := List.cons_eq_cons.mp h
          obtain ⟨rfl, rfl⟩ := ih (fun hmem => hs (List.mem_cons_of_mem _ hmem))
            (fun hmem => hs' (List.mem_cons_of_mem _ hmem)) hrest
          exact ⟨rfl, rfl⟩

/-- Different dates are written differently. -/
theorem strftimeF_injective {year month day year' month' day' : ℕ}
    (h : strftimeF year month day = strftimeF year' month' day') :
    year = year' ∧ month = month' ∧ day = day' := by
  have hparts : ∀ y m d : ℕ, strftimeF y m d =
      zeroPadded 4 y ++ 45 :: (zeroPadded 2 m ++ 45 :: zeroPadded 2 d) := by
    intro y m d
    unfold strftimeF
    rw [show bytes "-" = [45] from rfl]
    simp
  have hvalue : ∀ {width n n' : ℕ}, zeroPadded width n = zeroPadded width n' → n = n' := by
    intro width n n' heq
    rw [← digitsValue_zeroPadded width n, heq, digitsValue_zeroPadded]
  rw [hparts, hparts] at h
  obtain ⟨hyear, hrest⟩ := dash_inj (dash_notMem_zeroPadded _ _) (dash_notMem_zeroPadded _ _) h
  obtain ⟨hmonth, hday⟩ :=
    dash_inj (dash_notMem_zeroPadded _ _) (dash_notMem_zeroPadded _ _) hrest
  exact ⟨hvalue hyear, hvalue hmonth, hvalue hday⟩

end PyVal

namespace BaseSerializer

open PyVal

/-! ## Objects -/

/-- What `loads` makes of what `dumps` has written. -/
def decoded (serializer : Serializer) (x : Message) : Except Exc Message := do
  let buff ← serializer.dumps x
  serializer.loads (some buff)

/-- No exception in both, or exceptions of one class with the same arguments. -/
inductive SameExc : Option PyVal → Option PyVal → Prop where
  | none : SameExc (some .none) (some .none)
  | raised (cls : String) {args args' : PyVal} : Same args args' →
      SameExc (some (.instance cls [("args", args)])) (some (.instance cls [("args", args')]))

/-- Objects of one class with the same attributes. -/
def SameObject : Message → Message → Prop
  | .request a, .request b => SameMessage (.request a) (.request b)
  | .result a, .result b => SameAttr a.result b.result ∧ SameExc a.exc b.exc ∧
      SameAttr a.meta b.meta
  | _, _ => False

/-- Both are objects, and the objects are the same. -/
def Agree (a b : Except Exc Message) : Prop := ∃ y z, a = .ok y ∧ b = .ok z ∧ SameObject y z

/-- A request with strings as names, a sequence as args and a dictionary as kwargs; or a
result, with an exception only if that can be printed. What they carry is nested. -/
inductive Nested (S : SpecialMethods) : Message → Prop where
  | request {className methodName args kwargs value : PyVal} :
      className.isBasestring = true → methodName.isBasestring = true → args.isSequence = true →
      kwargs.isDict = true → Tree args → Tree kwargs → Tree value →
      Nested S (.request ⟨some className, some methodName, some args, some kwargs, some value⟩)
  | result {result exc value : PyVal} : Tree result →
      (exc = .none ∨ ∃ text, exc.toStr S = .ok text) → Tree value →
      Nested S (.result ⟨some result, some exc, some value⟩)

/-- The object carries a date that is no datetime. The meta of a request is not loaded. -/
def CarriesDate : Message → Prop
  | .request request => (∃ v, request.args = some v ∧ HasDate v) ∨
      ∃ v, request.kwargs = some v ∧ HasDate v
  | .result result => (∃ v, result.result = some v ∧ HasDate v) ∨
      ∃ v, result.meta = some v ∧ HasDate v
  | .other _ => False

/-- The module calls the function it is given for what it does not know in the dictionary of
the object, and is faithful on the rest. -/
def Faithful (S : SpecialMethods) (codec : Codec) (default : PyVal → Except Exc PyVal)
    (x : Message) : Prop :=
  ∀ d w, toDict S x = .ok d → hooked default (.dict d) = .ok w →
    ∃ buff v, codec.dumps default (.dict d) = .ok buff ∧ codec.loads (some buff) = .ok v ∧ Same v w

/-- A date. -/
structure Date where
  year : ℕ
  month : ℕ
  day : ℕ
  known : 1900 ≤ year
deriving DecidableEq

def Date.toVal (d : Date) : PyVal := .date d.year d.month d.day

/-- The result of a method that returns the value. -/
def resultOf (value : PyVal) : Message := .result { Result.new with result := some value }

/-- The results for the two dates are not loaded as the same object. -/
def ToldApart (serializer : Serializer) (d d' : Date) : Prop :=
  ¬ Agree (decoded serializer (resultOf d.toVal)) (decoded serializer (resultOf d'.toVal))

variable {S : SpecialMethods} {json msgpack codec : Codec} {default : PyVal → Except Exc PyVal}
  {x : Message}

/-- `dumps` and `loads` over a module. -/
def decodedWith (S : SpecialMethods) (codec : Codec) (default : PyVal → Except Exc PyVal)
    (x : Message) : Except Exc Message := do
  let buff ← dumps S codec default x
  loads codec (some buff)

theorem dumps_of_toDict {d : List (PyVal × PyVal)} {buff : List UInt8} (hd : toDict S x = .ok d)
    (hne : d.isEmpty = false) (h : codec.dumps default (.dict d) = .ok buff) :
    dumps S codec default x = .ok buff := by
  unfold dumps
  rw [hd]
  show wrapErrors .serializationError
    (if d.isEmpty then .error { cls := .typeError } else codec.dumps default (.dict d)) = _
  rw [hne, h]
  rfl

theorem hooked_basestring {v : PyVal} (h : v.isBasestring = true) : hooked default v = .ok v := by
  cases v with
  | str s => rfl
  | unicode s => rfl
  | _ => cases h

theorem hooked_isSequence {v w : PyVal} (h : v.isSequence = true) (hw : hooked default v = .ok w) :
    w.isSequence = true := by
  cases v with
  | tuple items =>
      obtain ⟨ws, rfl, _⟩ := hooked_tuple.mp hw
      rfl
  | list items =>
      obtain ⟨ws, rfl, _⟩ := hooked_list.mp hw
      rfl
  | _ => cases h

theorem hooked_isDict {v w : PyVal} (h : v.isDict = true) (hw : hooked default v = .ok w) :
    w.isDict = true := by
  cases v with
  | dict items =>
      obtain ⟨ws, rfl, _⟩ := hooked_dict.mp hw
      rfl
  | _ => cases h

/-- The values of some fields, and what the function makes of them. -/
theorem hooked_fields {fields ws : List (String × PyVal)}
    (h : List.Forall₂ (fun f g => f.1 = g.1 ∧ hooked default f.2 = .ok g.2) fields ws) :
    hooked default (.dict (fields.map fun f => (.str (bytes f.1), f.2))) =
      .ok (.dict (ws.map fun f => (.str (bytes f.1), f.2))) := by
  refine hooked_dict.mpr ⟨_, rfl, ?_⟩
  rw [List.forall₂_map_left_iff, List.forall₂_map_right_iff]
  refine h.imp ?_
  rintro f g ⟨hname, hvalue⟩
  exact ⟨congrArg (fun s => PyVal.str (bytes s)) hname, hvalue⟩

/-- A request is loaded with what the function has made of its arguments. -/
theorem decodedWith_request {className methodName args kwargs value args' kwargs' value' : PyVal}
    (hclass : className.isBasestring = true) (hmethod : methodName.isBasestring = true)
    (hsequence : args.isSequence = true) (hdict : kwargs.isDict = true)
    (hargs : hooked default args = .ok args') (hkwargs : hooked default kwargs = .ok kwargs')
    (hvalue : hooked default value = .ok value')
    (hcodec : Faithful S codec default
      (.request ⟨some className, some methodName, some args, some kwargs, some value⟩)) :
    ∃ a b c d, Same a className ∧ Same b methodName ∧ Same c args' ∧ Same d kwargs' ∧
      decodedWith S codec default
          (.request ⟨some className, some methodName, some args, some kwargs, some value⟩) =
        .ok (.request ⟨some a, some b, some c, some d, some .none⟩) := by
  have hmade : hooked default (.dict (dictOf
      (.request ⟨some className, some methodName, some args, some kwargs, some value⟩))) =
      .ok (.dict (dictOf
        (.request ⟨some className, some methodName, some args', some kwargs', some value'⟩))) :=
    hooked_fields (.cons ⟨rfl, hooked_basestring hclass⟩ (.cons ⟨rfl, hooked_basestring hmethod⟩
      (.cons ⟨rfl, hargs⟩ (.cons ⟨rfl, hkwargs⟩ (.cons ⟨rfl, hvalue⟩ (.cons ⟨rfl, rfl⟩ .nil))))))
  obtain ⟨buff, v, hdumps, hloads, hsame⟩ := hcodec _ _ rfl hmade
  have hsequence' := hooked_isSequence hsequence hargs
  have hdict' := hooked_isDict hdict hkwargs
  obtain ⟨data, rfl, hdata⟩ := fields_loaded
    (Plain.request className methodName args' kwargs' value' hclass hmethod hsequence' hdict') hsame
  obtain ⟨htrue, a, b, c, d, ha, hb, hc, hd, hrequest⟩ :=
    loadRequest_same hclass hmethod hsequence' hdict' hdata
  refine ⟨a, b, c, d, ha, hb, hc, hd, ?_⟩
  unfold decodedWith
  rw [dumps_of_toDict rfl rfl hdumps]
  show loads codec (some buff) = _
  unfold loads
  rw [hloads]
  show wrapErrors .deserializationError
    (if ((get data "is_request").getD (.bool true)).truth then loadRequest data
      else .ok (loadResult data)) = _
  rw [if_pos htrue, hrequest]
  rfl

/-- The fields `dumps` writes for a result, with the text of its exception. -/
def resultFields (result exc value : PyVal) : List (String × PyVal) :=
  [("result", result), ("exc", exc), ("meta", value), ("is_request", .bool false)]

/-- What `dumps` writes for the exception of a result. -/
theorem toDict_result (result : PyVal) {exc : PyVal} (value : PyVal)
    (hexc : exc = .none ∨ ∃ text, exc.toStr S = .ok text) :
    ∃ field, (field = .none ∨ ∃ s, field = .str s) ∧
      toDict S (.result ⟨some result, some exc, some value⟩) =
        .ok ((resultFields result field value).map fun f => (.str (bytes f.1), f.2)) := by
  by_cases hnone : exc = .none
  · rw [hnone]
    exact ⟨.none, Or.inl rfl, rfl⟩
  · obtain ⟨text, htext⟩ := hexc.resolve_left hnone
    refine ⟨.str (bytes exc.typeName ++ bytes ": " ++ text), Or.inr ⟨_, rfl⟩, ?_⟩
    cases exc with
    | none => exact absurd rfl hnone
    | _ =>
        simp only [toDict, getattr, bind, Except.bind, htext]
        rfl

/-- What `loads` makes of the text of an exception. -/
inductive LoadedExc : PyVal → PyVal → Prop where
  | none : LoadedExc .none .none
  | raised (s : List UInt8) {v : PyVal} : Same v (.str s) →
      LoadedExc (.str s) (.instance "RuntimeError" [("args", .tuple [v])])

theorem LoadedExc.same {field e e' : PyVal} (h : LoadedExc field e) (h' : LoadedExc field e') :
    SameExc (some e) (some e') := by
  cases h with
  | none =>
      cases h'
      exact SameExc.none
  | raised s hv =>
      cases h' with
      | raised _ hv' =>
          exact SameExc.raised _ (same_tuple_iff.mpr (.cons (hv.trans hv'.symm) .nil))

/-- A result is loaded from the fields of its dictionary. -/
theorem loadResult_fields {data : List (PyVal × PyVal)} {result field value : PyVal}
    (hfield : field = .none ∨ ∃ s, field = .str s)
    (hdata : ∀ f ∈ resultFields result field value, ∃ w, get data f.1 = some w ∧ Same w f.2) :
    ((get data "is_request").getD (.bool true)).truth = false ∧
      ∃ a e c, Same a result ∧ LoadedExc field e ∧ Same c value ∧
        loadResult data = .result ⟨some a, some e, some c⟩ := by
  obtain ⟨a, ha, hsa⟩ := hdata ("result", result) (by simp [resultFields])
  obtain ⟨b, hb, hsb⟩ := hdata ("exc", field) (by simp [resultFields])
  obtain ⟨c, hc, hsc⟩ := hdata ("meta", value) (by simp [resultFields])
  obtain ⟨d, hd, hsd⟩ := hdata ("is_request", .bool false) (by simp [resultFields])
  constructor
  · rw [hd]
    exact hsd.truth_bool
  · rcases hfield with rfl | ⟨s, rfl⟩
    · have hnone : b = .none := hsb.symm.none_left
      subst hnone
      refine ⟨a, .none, c, hsa, LoadedExc.none, hsc, ?_⟩
      unfold loadResult
      simp only [ha, hb, hc]
      rfl
    · refine ⟨a, _, c, hsa, LoadedExc.raised s hsb, hsc, ?_⟩
      unfold loadResult
      rcases hsb.symm.of_str with rfl | ⟨t, _, rfl⟩
      · simp only [ha, hb, hc]
      · simp only [ha, hb, hc]

/-- A result is loaded with what the function has made of its attributes. -/
theorem decodedWith_result {result exc value field result' value' : PyVal}
    (hfield : field = .none ∨ ∃ s, field = .str s)
    (hd : toDict S (.result ⟨some result, some exc, some value⟩) =
      .ok ((resultFields result field value).map fun f => (.str (bytes f.1), f.2)))
    (hresult : hooked default result = .ok result') (hvalue : hooked default value = .ok value')
    (hcodec : Faithful S codec default (.result ⟨some result, some exc, some value⟩)) :
    ∃ a e c, Same a result' ∧ LoadedExc field e ∧ Same c value' ∧
      decodedWith S codec default (.result ⟨some result, some exc, some value⟩) =
        .ok (.result ⟨some a, some e, some c⟩) := by
  have hexc : hooked default field = .ok field := by
    rcases hfield with rfl | ⟨s, rfl⟩
    · rfl
    · rfl
  have hmade : hooked default
      (.dict ((resultFields result field value).map fun f => (.str (bytes f.1), f.2))) =
      .ok (.dict ((resultFields result' field value').map fun f => (.str (bytes f.1), f.2))) :=
    hooked_fields (.cons ⟨rfl, hresult⟩ (.cons ⟨rfl, hexc⟩ (.cons ⟨rfl, hvalue⟩
      (.cons ⟨rfl, rfl⟩ .nil))))
  obtain ⟨buff, v, hdumps, hloads, hsame⟩ := hcodec _ _ hd hmade
  have hfields : ∃ data, v = .dict data ∧
      ∀ f ∈ resultFields result' field value', ∃ w, get data f.1 = some w ∧ Same w f.2 := by
    apply hsame.field
    · show [bytes "result", bytes "exc", bytes "meta", bytes "is_request"].Nodup
      decide
    · show [bytes "result", bytes "exc", bytes "meta", bytes "is_request"].all
        (fun s => s.all (· < 128)) = true
      decide
  obtain ⟨data, rfl, hdata⟩ := hfields
  obtain ⟨hfalse, a, e, c, ha, he, hc, hload⟩ := loadResult_fields hfield hdata
  refine ⟨a, e, c, ha, he, hc, ?_⟩
  unfold decodedWith
  rw [dumps_of_toDict hd rfl hdumps]
  show loads codec (some buff) = _
  unfold loads
  rw [hloads]
  show wrapErrors .deserializationError
    (if ((get data "is_request").getD (.bool true)).truth then loadRequest data
      else .ok (loadResult data)) = _
  rw [hfalse, hload]
  rfl

/-! ## Both serializers -/

theorem same_iff_of_same {a b v w : PyVal} (ha : Same a v) (hb : Same b w) :
    Same a b ↔ Same v w :=
  ⟨fun h => ha.symm.trans (h.trans hb), fun h => ha.trans (h.trans hb.symm)⟩

theorem agree_ok {y z : Message} : Agree (.ok y) (.ok z) ↔ SameObject y z := by
  constructor
  · rintro ⟨y', z', hy, hz, h⟩
    cases hy
    cases hz
    exact h
  · exact fun h => ⟨y, z, rfl, rfl, h⟩

/-- The serializers agree on an object if and only if it carries no date. -/
theorem decoded_agree_iff (hx : Nested S x) (hjson : Faithful S json jsonDefault x)
    (hmsgpack : Faithful S msgpack msgpackDefault x) :
    Agree (decodedWith S json jsonDefault x) (decodedWith S msgpack msgpackDefault x) ↔
      ¬ CarriesDate x := by
  cases hx with
  | @request className methodName args kwargs value hclass hmethod hsequence hdict hargs hkwargs
      hvalue =>
      obtain ⟨args₁, hargs₁⟩ := hooked_tree knows_json hargs
      obtain ⟨args₂, hargs₂⟩ := hooked_tree knows_msgpack hargs
      obtain ⟨kwargs₁, hkwargs₁⟩ := hooked_tree knows_json hkwargs
      obtain ⟨kwargs₂, hkwargs₂⟩ := hooked_tree knows_msgpack hkwargs
      obtain ⟨value₁, hvalue₁⟩ := hooked_tree knows_json hvalue
      obtain ⟨value₂, hvalue₂⟩ := hooked_tree knows_msgpack hvalue
      obtain ⟨a₁, b₁, c₁, d₁, ha₁, hb₁, hc₁, hd₁, hdecoded₁⟩ :=
        decodedWith_request hclass hmethod hsequence hdict hargs₁ hkwargs₁ hvalue₁ hjson
      obtain ⟨a₂, b₂, c₂, d₂, ha₂, hb₂, hc₂, hd₂, hdecoded₂⟩ :=
        decodedWith_request hclass hmethod hsequence hdict hargs₂ hkwargs₂ hvalue₂ hmsgpack
      rw [hdecoded₁, hdecoded₂, agree_ok]
      have hcarries : CarriesDate
          (.request ⟨some className, some methodName, some args, some kwargs, some value⟩) ↔
            HasDate args ∨ HasDate kwargs := by
        simp [CarriesDate]
      rw [hcarries, not_or, ← same_hooked_iff hargs hargs₁ hargs₂,
        ← same_hooked_iff hkwargs hkwargs₁ hkwargs₂, ← same_iff_of_same hc₁ hc₂,
        ← same_iff_of_same hd₁ hd₂]
      constructor
      · rintro ⟨_, _, hc, hd, _⟩
        exact ⟨hc, hd⟩
      · rintro ⟨hc, hd⟩
        exact ⟨ha₁.trans ha₂.symm, hb₁.trans hb₂.symm, hc, hd, Same.refl _⟩
  | @result result exc value hresult hexc hvalue =>
      obtain ⟨result₁, hresult₁⟩ := hooked_tree knows_json hresult
      obtain ⟨result₂, hresult₂⟩ := hooked_tree knows_msgpack hresult
      obtain ⟨value₁, hvalue₁⟩ := hooked_tree knows_json hvalue
      obtain ⟨value₂, hvalue₂⟩ := hooked_tree knows_msgpack hvalue
      obtain ⟨field, hfield, hd⟩ := toDict_result result value hexc
      obtain ⟨a₁, e₁, c₁, ha₁, he₁, hc₁, hdecoded₁⟩ :=
        decodedWith_result hfield hd hresult₁ hvalue₁ hjson
      obtain ⟨a₂, e₂, c₂, ha₂, he₂, hc₂, hdecoded₂⟩ :=
        decodedWith_result hfield hd hresult₂ hvalue₂ hmsgpack
      rw [hdecoded₁, hdecoded₂, agree_ok]
      have hcarries : CarriesDate (.result ⟨some result, some exc, some value⟩) ↔
          HasDate result ∨ HasDate value := by
        simp [CarriesDate]
      rw [hcarries, not_or, ← same_hooked_iff hresult hresult₁ hresult₂,
        ← same_hooked_iff hvalue hvalue₁ hvalue₂, ← same_iff_of_same ha₁ ha₂,
        ← same_iff_of_same hc₁ hc₂]
      constructor
      · rintro ⟨ha, _, hc⟩
        exact ⟨ha, hc⟩
      · rintro ⟨ha, hc⟩
        exact ⟨ha, he₁.same he₂, hc⟩

/-- The result for a date is loaded with the string the function has made of it. -/
theorem decodedWith_date {d : Date} {s : List UInt8} (hs : default d.toVal = .ok (.str s))
    (hcodec : Faithful S codec default (resultOf d.toVal)) :
    ∃ a, Same a (.str s) ∧
      decodedWith S codec default (resultOf d.toVal) =
        .ok (.result ⟨some a, some .none, some .none⟩) := by
  have hhooked : hooked default d.toVal = .ok (.str s) := hs
  obtain ⟨a, e, c, ha, he, hc, hdecoded⟩ :=
    decodedWith_result (Or.inl rfl) rfl hhooked rfl hcodec
  cases he
  rw [hc.symm.none_left] at hdecoded
  exact ⟨a, ha, hdecoded⟩

/-- Results for two dates are loaded as the same object just when the strings made of the
dates are the same. -/
theorem agree_date_iff {d d' : Date} {s s' : List UInt8} (hs : default d.toVal = .ok (.str s))
    (hs' : default d'.toVal = .ok (.str s')) (hd : Faithful S codec default (resultOf d.toVal))
    (hd' : Faithful S codec default (resultOf d'.toVal)) :
    Agree (decodedWith S codec default (resultOf d.toVal))
      (decodedWith S codec default (resultOf d'.toVal)) ↔ s = s' := by
  obtain ⟨a, ha, hdecoded⟩ := decodedWith_date hs hd
  obtain ⟨a', ha', hdecoded'⟩ := decodedWith_date hs' hd'
  rw [hdecoded, hdecoded', agree_ok, ← same_str_iff, ← same_iff_of_same ha ha']
  constructor
  · exact fun h => h.1
  · exact fun h => ⟨h, SameExc.none, Same.refl _⟩

/-- The serializers load the same object of what each of them has written if and only if the
object carries no date. Of results for different dates msgpack makes different objects, and
JSON never does. -/
theorem interchangeable_iff (S : SpecialMethods) (json msgpack : Codec) (x : Message)
    (hx : Nested S x) (hjson : Faithful S json jsonDefault x)
    (hmsgpack : Faithful S msgpack msgpackDefault x) (d d' : Date) (hne : d ≠ d')
    (hjsonDate : Faithful S json jsonDefault (resultOf d.toVal))
    (hjsonDate' : Faithful S json jsonDefault (resultOf d'.toVal))
    (hmsgpackDate : Faithful S msgpack msgpackDefault (resultOf d.toVal))
    (hmsgpackDate' : Faithful S msgpack msgpackDefault (resultOf d'.toVal)) :
    (Agree (decoded (JsonSerializer S json) x) (decoded (MsgpackSerializer S msgpack) x) ↔
      ¬ CarriesDate x) ∧
    ToldApart (MsgpackSerializer S msgpack) d d' ∧ ¬ ToldApart (JsonSerializer S json) d d' := by
  have hmsgpackText : ∀ e : Date, msgpackDefault e.toVal =
      .ok (.str (strftimeF e.year e.month e.day)) := fun e => strftime_ok e.known _
  have hjsonText : ∀ e : Date, jsonDefault e.toVal = .ok (.str (bytes "F")) :=
    fun e => strftime_ok e.known _
  refine ⟨decoded_agree_iff hx hjson hmsgpack, ?_, ?_⟩
  · intro hagree
    have htexts := (agree_date_iff (hmsgpackText d) (hmsgpackText d') hmsgpackDate
      hmsgpackDate').mp hagree
    obtain ⟨hyear, hmonth, hday⟩ := strftimeF_injective htexts
    obtain ⟨year, month, day, _⟩ := d
    obtain ⟨year', month', day', _⟩ := d'
    cases hyear
    cases hmonth
    cases hday
    exact hne rfl
  · intro hapart
    exact hapart ((agree_date_iff (hjsonText d) (hjsonText d') hjsonDate hjsonDate').mpr rfl)

/-! ## Two dates -/

/-- A module, as far as it is needed here: it writes a result without an exception as `text`
of what is returned, and reads the texts it knows. -/
def resultCodec (text : PyVal → List UInt8) (known : List (PyVal × PyVal)) : Codec where
  loads := fun buff =>
    match known.find? fun p => some (text p.1) == buff with
    | .some p => .ok p.2
    | .none => .error { cls := .valueError }
  dumps := fun default value => do
    match ← hooked default value with
    | .dict items => return text ((get items "result").getD .none)
    | _ => .error { cls := .typeError }

theorem faithful_resultCodec {text : PyVal → List UInt8} {known : List (PyVal × PyVal)}
    {v w loaded : PyVal} (hv : hooked default v = .ok w)
    (hknown : (known.find? fun p => text p.1 == text w) = some (w, loaded))
    (hsame : Same loaded
      (.dict ((resultFields w .none .none).map fun f => (.str (bytes f.1), f.2)))) :
    Faithful S (resultCodec text known) default (resultOf v) := by
  intro d made hd hmade
  have hmade' : hooked default
      (.dict ((resultFields v .none .none).map fun f => (.str (bytes f.1), f.2))) =
      .ok (.dict ((resultFields w .none .none).map fun f => (.str (bytes f.1), f.2))) :=
    hooked_fields (.cons ⟨rfl, hv⟩ (.cons ⟨rfl, rfl⟩ (.cons ⟨rfl, rfl⟩ (.cons ⟨rfl, rfl⟩ .nil))))
  have hresult : d = (resultFields v .none .none).map fun f => (.str (bytes f.1), f.2) :=
    (Except.ok.inj hd).symm
  rw [hresult] at hmade ⊢
  rw [hmade'] at hmade
  cases hmade
  refine ⟨text w, loaded, ?_, ?_, hsame⟩
  · have hget : get ((resultFields w .none .none).map fun f => (.str (bytes f.1), f.2)) "result" =
        some w := by
      simp [PyVal.get, resultFields, eqStr]
    simp only [resultCodec, hmade', bind, Except.bind, hget]
    rfl
  · simp only [resultCodec]
    have hfind : (known.find? fun p => some (text p.1) == some (text w)) = some (w, loaded) :=
      hknown
    rw [hfind]

/-- `json.dumps` of a result that is a string, or a list of one. -/
def jsonText : PyVal → List UInt8
  | .str s => bytes "\x7b\"result\": \"" ++ s ++ bytes "\", \"exc\": null, \"meta\": null, " ++
      bytes "\"is_request\": false\x7d"
  | .list [.str s] => bytes "\x7b\"result\": [\"" ++ s ++ bytes "\"], \"exc\": null, " ++
      bytes "\"meta\": null, \"is_request\": false\x7d"
  | _ => []

/-- What `json.loads` makes of a result. -/
def jsonLoaded (result : PyVal) : PyVal :=
  .dict [(.unicode "result".toList, result), (.unicode "exc".toList, .none),
    (.unicode "meta".toList, .none), (.unicode "is_request".toList, .bool false)]

/-- A short string of `msgpack`. -/
def msgpackStr (s : List UInt8) : List UInt8 := UInt8.ofNat (160 + s.length) :: s

/-- `msgpack.dumps` of a result that is a string, or a list of one. -/
def msgpackText : PyVal → List UInt8
  | .str s => [132] ++ msgpackStr (bytes "result") ++ msgpackStr s ++ msgpackStr (bytes "exc") ++
      [192] ++ msgpackStr (bytes "meta") ++ [192] ++ msgpackStr (bytes "is_request") ++ [194]
  | .list [.str s] => [132] ++ msgpackStr (bytes "result") ++ [145] ++ msgpackStr s ++
      msgpackStr (bytes "exc") ++ [192] ++ msgpackStr (bytes "meta") ++ [192] ++
      msgpackStr (bytes "is_request") ++ [194]
  | _ => []

/-- What `msgpack.loads` makes of a result. -/
def msgpackLoaded (result : PyVal) : PyVal :=
  .dict [(.str (bytes "result"), result), (.str (bytes "exc"), .none),
    (.str (bytes "meta"), .none), (.str (bytes "is_request"), .bool false)]

/-- A list of one datetime. -/
def moments : PyVal := .list [.datetime 2020 1 2 3 4 5]

def second : Date := ⟨2020, 1, 2, by decide⟩

def third : Date := ⟨2020, 1, 3, by decide⟩

/-- `json`, as far as it is needed here. -/
def dateJson : Codec := resultCodec jsonText [
  (.str (bytes "F"), jsonLoaded (.unicode "F".toList)),
  (.list [.str (bytes "2020-01-02 03:04:05")],
    jsonLoaded (.list [.unicode "2020-01-02 03:04:05".toList]))]

/-- `msgpack`, as far as it is needed here. -/
def dateMsgpack : Codec := resultCodec msgpackText [
  (.str (bytes "2020-01-02"), msgpackLoaded (.str (bytes "2020-01-02"))),
  (.str (bytes "2020-01-03"), msgpackLoaded (.str (bytes "2020-01-03"))),
  (.list [.str (bytes "2020-01-02 03:04:05")],
    msgpackLoaded (.list [.str (bytes "2020-01-02 03:04:05")]))]

theorem same_jsonLoaded {v w : PyVal} (h : Same v w) :
    Same (jsonLoaded v)
      (.dict ((resultFields w .none .none).map fun f => (.str (bytes f.1), f.2))) := by
  have hname : ∀ name : String, (unicode name.toList).eqStr (bytes name) = true →
      Same (unicode name.toList) (str (bytes name)) := fun _ heq => Same.unicodeStr heq
  apply Same.dict (List.Perm.refl _)
  · refine .cons (hname _ ?_) (.cons (hname _ ?_) (.cons (hname _ ?_) (.cons (hname _ ?_) .nil)))
    all_goals decide +kernel
  · exact .cons h (.cons (Same.refl _) (.cons (Same.refl _) (.cons (Same.refl _) .nil)))

theorem nested_moments : Nested S (resultOf moments) := by
  refine Nested.result (Tree.list ?_) (Or.inl rfl) Tree.none
  intro item hitem
  rw [List.mem_singleton.mp hitem]
  exact Tree.datetime _ _ _ _ _ (by decide)

theorem faithful_json_date {d : Date} : Faithful S dateJson jsonDefault (resultOf d.toVal) := by
  have hsame : Same (.unicode "F".toList) (.str (bytes "F")) := Same.unicodeStr (by decide)
  exact faithful_resultCodec (strftime_ok d.known _) rfl (same_jsonLoaded hsame)

theorem faithful_json_moments : Faithful S dateJson jsonDefault (resultOf moments) := by
  have hhooked : hooked jsonDefault moments =
      .ok (.list [.str (bytes "2020-01-02 03:04:05")]) := rfl
  have hsame : Same (.unicode "2020-01-02 03:04:05".toList)
      (.str (bytes "2020-01-02 03:04:05")) := Same.unicodeStr (by decide +kernel)
  exact faithful_resultCodec hhooked rfl
    (same_jsonLoaded (same_list_iff.mpr (.cons hsame .nil)))

theorem faithful_msgpack_second :
    Faithful S dateMsgpack msgpackDefault (resultOf second.toVal) := by
  have hhooked : hooked msgpackDefault second.toVal = .ok (.str (bytes "2020-01-02")) := rfl
  exact faithful_resultCodec hhooked rfl (Same.refl _)

theorem faithful_msgpack_third :
    Faithful S dateMsgpack msgpackDefault (resultOf third.toVal) := by
  have hhooked : hooked msgpackDefault third.toVal = .ok (.str (bytes "2020-01-03")) := rfl
  exact faithful_resultCodec hhooked rfl (Same.refl _)

theorem faithful_msgpack_moments :
    Faithful S dateMsgpack msgpackDefault (resultOf moments) := by
  have hhooked : hooked msgpackDefault moments =
      .ok (.list [.str (bytes "2020-01-02 03:04:05")]) := rfl
  exact faithful_resultCodec hhooked rfl (Same.refl _)

/-- A datetime is not a date here. -/
theorem not_carriesDate_moments : ¬ CarriesDate (resultOf moments) := by
  rintro (⟨v, hv, hdate⟩ | ⟨v, hv, hdate⟩)
  · cases hv
    cases hdate with
    | list hitem hdate =>
        rw [List.mem_singleton.mp hitem] at hdate
        cases hdate
  · cases hv
    cases hdate

/-- A list of a datetime is the same with both, and dates are told apart with msgpack only. -/
theorem interchangeable_iff_moments :
    Agree (decoded (JsonSerializer noMethods dateJson) (resultOf moments))
      (decoded (MsgpackSerializer noMethods dateMsgpack) (resultOf moments)) ∧
    ToldApart (MsgpackSerializer noMethods dateMsgpack) second third ∧
    ¬ ToldApart (JsonSerializer noMethods dateJson) second third := by
  obtain ⟨hagree, hdates⟩ := interchangeable_iff noMethods dateJson dateMsgpack (resultOf moments)
    nested_moments faithful_json_moments faithful_msgpack_moments second third (by decide)
    faithful_json_date faithful_json_date faithful_msgpack_second faithful_msgpack_third
  exact ⟨hagree.mpr not_carriesDate_moments, hdates⟩

/-- A date is not the same with both. -/
theorem date_differs :
    ¬ ∀ S json msgpack x, Nested S x → Faithful S json jsonDefault x →
      Faithful S msgpack msgpackDefault x →
      Agree (decoded (JsonSerializer S json) x) (decoded (MsgpackSerializer S msgpack) x) := by
  intro h
  have hnested : Nested noMethods (resultOf second.toVal) :=
    Nested.result (Tree.date _ _ second.known) (Or.inl rfl) Tree.none
  have hagree := h noMethods dateJson dateMsgpack _ hnested faithful_json_date
    faithful_msgpack_second
  exact (decoded_agree_iff hnested faithful_json_date faithful_msgpack_second).mp hagree
    (Or.inl ⟨_, rfl, HasDate.date _ _ _⟩)

end BaseSerializer

end SummerRpc
