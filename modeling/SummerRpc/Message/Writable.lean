import SummerRpc.Message.Interchange

/-! # What the serializers can write

Which results `pickle`, `json` and `msgpack` take, from what is documented of them.

* `Format`, `writable`: the values a module writes, and those for which it is given the
  function `default`;
* `Codec.Documented`, `Pickle.Documented`: the modules;
* `hooked_writable_iff`: a value is writable when `default` has a text for each of its dates
  and times;
* `dumps_result_iff`: so that is when a result can be dumped.
-/

namespace SummerRpc

open PyVal

/-- What a module writes by itself: some of the strings and numbers, some of the keys of a
dictionary, and values nested to some depth inside the outermost dictionary; and what it
makes of a value. -/
structure Format where
  scalar : PyVal → Bool
  key : PyVal → Bool
  nesting : ℕ
  text : PyVal → List UInt8

/-- A value nested at most `n` deep whose leaves can be written; of dates and times,
exceptions and instances those of `object` can. -/
def writable (F : Format) (object : PyVal → Bool) : ℕ → PyVal → Bool
  | 0, .tuple _ | 0, .list _ | 0, .dict _ => false
  | n + 1, .tuple items | n + 1, .list items => items.all fun item => writable F object n item
  | n + 1, .dict items => items.all fun p => F.key p.1 && writable F object n p.2
  | _, .datetime year month day hour minute second =>
      object (.datetime year month day hour minute second)
  | _, .date year month day => object (.date year month day)
  | _, .time hour minute second => object (.time hour minute second)
  | _, .baseError cls msg => object (.baseError cls msg)
  | _, .instance cls attrs => object (.instance cls attrs)
  | _, value => F.scalar value

/-- Dates and times, in the years `strftime` knows. -/
def printable : PyVal → Bool
  | .datetime year _ _ _ _ _ | .date year _ _ => 1900 ≤ year
  | .time .. => true
  | _ => false

/-- A value the module writes with the function for dates and times. -/
def encodable (F : Format) : ℕ → PyVal → Bool := writable F printable

/-- What is documented of `json` and `msgpack`: `default` is asked for the values the module
does not know, and the rest is written or refused as the format says. `None`, booleans and
ASCII strings are always written. -/
structure Codec.Documented (F : Format) (codec : Codec) (default : PyVal → Except Exc PyVal) :
    Prop where
  none : F.scalar .none = true
  bool : ∀ b, F.scalar (.bool b) = true
  ascii : ∀ s : List UInt8, s.all (· < 128) = true →
    F.scalar (.str s) = true ∧ F.key (.str s) = true
  writes : ∀ v w, hooked default v = .ok w →
    writable F (fun _ => false) (F.nesting + 1) w = true → codec.dumps default v = .ok (F.text v)
  refuses : ∀ v, (∀ w, hooked default v = .ok w →
    writable F (fun _ => false) (F.nesting + 1) w = false) → ∃ ex, codec.dumps default v = .error ex

/-- The function has an ASCII text for each date and time, and nothing for anything else. -/
structure Prints (default : PyVal → Except Exc PyVal) : Prop where
  text : ∀ v, printable v = true →
    ∃ s : List UInt8, default v = .ok (.str s) ∧ s.all (· < 128) = true
  other : ∀ v w, default v = .ok w → printable v = true

/-! ## The texts of dates and times -/

theorem ascii_zeroPadded (width n : ℕ) : (zeroPadded width n).all (· < 128) = true := by
  unfold zeroPadded
  rw [List.all_append, Bool.and_eq_true]
  constructor
  · rw [List.all_eq_true]
    intro b hb
    rw [List.eq_of_mem_replicate hb]
    rfl
  · rw [List.all_eq_true]
    intro b hb
    have hdigit := isDigit_of_mem_decimal hb
    unfold isDigit at hdigit
    simp only [Bool.and_eq_true, decide_eq_true_eq, UInt8.le_iff_toNat_le] at hdigit
    simp only [decide_eq_true_eq, UInt8.lt_iff_toNat_lt]
    have hle : b.toNat ≤ 57 := hdigit.2
    show b.toNat < 128
    omega

theorem ascii_strftimeF (year month day : ℕ) :
    (strftimeF year month day).all (· < 128) = true := by
  unfold strftimeF
  simp only [List.all_append, ascii_zeroPadded, Bool.true_and, Bool.and_true]
  decide

theorem ascii_strftimeT (hour minute second : ℕ) :
    (strftimeT hour minute second).all (· < 128) = true := by
  unfold strftimeT
  simp only [List.all_append, ascii_zeroPadded, Bool.true_and, Bool.and_true]
  decide

theorem ascii_datetime (year month day hour minute second : ℕ) :
    (strftimeF year month day ++ bytes " " ++ strftimeT hour minute second).all (· < 128) =
      true := by
  simp only [List.all_append, ascii_strftimeF, ascii_strftimeT, Bool.true_and, Bool.and_true]
  decide

theorem le_of_strftime {year : ℕ} {text : List UInt8} {w : PyVal}
    (h : strftime year text = .ok w) : 1900 ≤ year := by
  by_contra hlt
  unfold strftime at h
  rw [if_pos (by omega)] at h
  cases h

theorem prints_json : Prints jsonDefault where
  text := by
    intro v hv
    cases v with
    | datetime year month day hour minute second =>
        exact ⟨_, strftime_ok (of_decide_eq_true hv) _, ascii_datetime _ _ _ _ _ _⟩
    | date year month day => exact ⟨_, strftime_ok (of_decide_eq_true hv) _, by decide⟩
    | time hour minute second =>
        exact ⟨_, strftime_ok (Nat.le_refl 1900) _, ascii_strftimeT _ _ _⟩
    | _ => cases hv
  other := by
    intro v w hv
    cases v with
    | datetime year month day hour minute second => exact decide_eq_true (le_of_strftime hv)
    | date year month day => exact decide_eq_true (le_of_strftime hv)
    | time hour minute second => rfl
    | _ => cases hv

theorem prints_msgpack : Prints msgpackDefault where
  text := by
    intro v hv
    cases v with
    | datetime year month day hour minute second =>
        exact ⟨_, strftime_ok (of_decide_eq_true hv) _, ascii_datetime _ _ _ _ _ _⟩
    | date year month day =>
        exact ⟨_, strftime_ok (of_decide_eq_true hv) _, ascii_strftimeF _ _ _⟩
    | time hour minute second =>
        exact ⟨_, strftime_ok (Nat.le_refl 1900) _, ascii_strftimeT _ _ _⟩
    | _ => cases hv
  other := by
    intro v w hv
    cases v with
    | datetime year month day hour minute second => exact decide_eq_true (le_of_strftime hv)
    | date year month day => exact decide_eq_true (le_of_strftime hv)
    | time hour minute second => rfl
    | _ => cases hv

/-! ## Values with dates and times -/

variable {F : Format} {codec : Codec} {default : PyVal → Except Exc PyVal}

/-- A leaf with what the function makes of it. -/
theorem hooked_object_iff (hprints : Prints default)
    (hascii : ∀ s : List UInt8, s.all (· < 128) = true → F.scalar (.str s) = true) {v : PyVal}
    (hv : hooked default v = default v) (n : ℕ) :
    (∃ w, hooked default v = .ok w ∧ writable F (fun _ => false) n w = true) ↔
      printable v = true := by
  rw [hv]
  constructor
  · rintro ⟨w, hw, _⟩
    exact hprints.other v w hw
  · intro hyes
    rcases hprints.text v hyes with ⟨s, hs, hs'⟩
    refine ⟨.str s, hs, ?_⟩
    have hscalar := hascii s hs'
    cases n <;> exact hscalar

theorem hooked_items_iff {items : List PyVal} {P Q : PyVal → Bool}
    (h : ∀ item ∈ items, (∃ w, hooked default item = .ok w ∧ P w = true) ↔ Q item = true) :
    (∃ ws, List.Forall₂ (fun v w => hooked default v = .ok w) items ws ∧ ws.all P = true) ↔
      items.all Q = true := by
  induction items with
  | nil => exact ⟨fun _ => rfl, fun _ => ⟨[], .nil, rfl⟩⟩
  | cons item items ih =>
      have hrest := ih fun item' hitem => h item' (List.mem_cons_of_mem _ hitem)
      rw [List.all_cons, Bool.and_eq_true, ← h item List.mem_cons_self, ← hrest]
      constructor
      · rintro ⟨ws, hws, hall⟩
        cases hws with
        | cons hw hws =>
            rw [List.all_cons, Bool.and_eq_true] at hall
            exact ⟨⟨_, hw, hall.1⟩, _, hws, hall.2⟩
      · rintro ⟨⟨w, hw, hp⟩, ws, hws, hall⟩
        exact ⟨w :: ws, .cons hw hws, by rw [List.all_cons, hp, hall]; rfl⟩

theorem hooked_entries_iff {items : List (PyVal × PyVal)} {K P Q : PyVal → Bool}
    (h : ∀ p ∈ items, (∃ w, hooked default p.2 = .ok w ∧ P w = true) ↔ Q p.2 = true) :
    (∃ ws, List.Forall₂ (fun p q => p.1 = q.1 ∧ hooked default p.2 = .ok q.2) items ws ∧
        ws.all (fun q : PyVal × PyVal => K q.1 && P q.2) = true) ↔
      items.all (fun p => K p.1 && Q p.2) = true := by
  induction items with
  | nil => exact ⟨fun _ => rfl, fun _ => ⟨[], .nil, rfl⟩⟩
  | cons item items ih =>
      have hrest := ih fun p hp => h p (List.mem_cons_of_mem _ hp)
      rw [List.all_cons, Bool.and_eq_true, Bool.and_eq_true, ← h item List.mem_cons_self, ← hrest]
      constructor
      · rintro ⟨ws, hws, hall⟩
        cases hws with
        | @cons _ q _ _ hw hws =>
            rw [List.all_cons, Bool.and_eq_true, Bool.and_eq_true, ← hw.1] at hall
            exact ⟨⟨hall.1.1, _, hw.2, hall.1.2⟩, _, hws, hall.2⟩
      · rintro ⟨⟨hk, w, hw, hp⟩, ws, hws, hall⟩
        exact ⟨(item.1, w) :: ws, .cons ⟨rfl, hw⟩ hws, by rw [List.all_cons, hk, hp, hall]; rfl⟩

/-- What the module is given for a value can be written if and only if the value is
encodable. -/
theorem hooked_writable_iff (hprints : Prints default)
    (hascii : ∀ s : List UInt8, s.all (· < 128) = true → F.scalar (.str s) = true)
    (n : ℕ) (v : PyVal) :
    (∃ w, hooked default v = .ok w ∧ writable F (fun _ => false) n w = true) ↔
      encodable F n v = true := by
  unfold encodable
  induction n generalizing v with
  | zero =>
      cases v with
      | tuple items =>
          constructor
          · rintro ⟨w, hw, hno⟩
            rcases hooked_tuple.mp hw with ⟨ws, rfl, _⟩
            cases hno
          · intro h
            cases h
      | list items =>
          constructor
          · rintro ⟨w, hw, hno⟩
            rcases hooked_list.mp hw with ⟨ws, rfl, _⟩
            cases hno
          · intro h
            cases h
      | dict items =>
          constructor
          · rintro ⟨w, hw, hno⟩
            rcases hooked_dict.mp hw with ⟨ws, rfl, _⟩
            cases hno
          · intro h
            cases h
      | datetime year month day hour minute second => exact hooked_object_iff hprints hascii rfl 0
      | date year month day => exact hooked_object_iff hprints hascii rfl 0
      | time hour minute second => exact hooked_object_iff hprints hascii rfl 0
      | baseError cls msg => exact hooked_object_iff hprints hascii rfl 0
      | «instance» cls attrs => exact hooked_object_iff hprints hascii rfl 0
      | _ => exact ⟨fun ⟨w, hw, h⟩ => by cases hw; exact h, fun h => ⟨_, rfl, h⟩⟩
  | succ n ih =>
      cases v with
      | tuple items =>
          show _ ↔ items.all (fun item => writable F printable n item) = true
          rw [← hooked_items_iff fun item _ => ih item]
          constructor
          · rintro ⟨w, hw, h⟩
            rcases hooked_tuple.mp hw with ⟨ws, rfl, hws⟩
            exact ⟨ws, hws, h⟩
          · rintro ⟨ws, hws, h⟩
            exact ⟨_, hooked_tuple.mpr ⟨ws, rfl, hws⟩, h⟩
      | list items =>
          show _ ↔ items.all (fun item => writable F printable n item) = true
          rw [← hooked_items_iff fun item _ => ih item]
          constructor
          · rintro ⟨w, hw, h⟩
            rcases hooked_list.mp hw with ⟨ws, rfl, hws⟩
            exact ⟨ws, hws, h⟩
          · rintro ⟨ws, hws, h⟩
            exact ⟨_, hooked_list.mpr ⟨ws, rfl, hws⟩, h⟩
      | dict items =>
          show _ ↔ items.all (fun p => F.key p.1 && writable F printable n p.2) = true
          rw [← hooked_entries_iff fun p _ => ih p.2]
          constructor
          · rintro ⟨w, hw, h⟩
            rcases hooked_dict.mp hw with ⟨ws, rfl, hws⟩
            exact ⟨ws, hws, h⟩
          · rintro ⟨ws, hws, h⟩
            exact ⟨_, hooked_dict.mpr ⟨ws, rfl, hws⟩, h⟩
      | datetime year month day hour minute second =>
          exact hooked_object_iff hprints hascii rfl (n + 1)
      | date year month day => exact hooked_object_iff hprints hascii rfl (n + 1)
      | time hour minute second => exact hooked_object_iff hprints hascii rfl (n + 1)
      | baseError cls msg => exact hooked_object_iff hprints hascii rfl (n + 1)
      | «instance» cls attrs => exact hooked_object_iff hprints hascii rfl (n + 1)
      | _ => exact ⟨fun ⟨w, hw, h⟩ => by cases hw; exact h, fun h => ⟨_, rfl, h⟩⟩

/-- A module writes the encodable values. -/
theorem codec_dumps_iff (h : codec.Documented F default) (hprints : Prints default) (v : PyVal)
    (buff : List UInt8) :
    codec.dumps default v = .ok buff ↔ encodable F (F.nesting + 1) v = true ∧ buff = F.text v := by
  rw [← hooked_writable_iff hprints (fun s hs => (h.ascii s hs).1)]
  by_cases hw : ∃ w, hooked default v = .ok w ∧ writable F (fun _ => false) (F.nesting + 1) w = true
  · rcases hw with ⟨w, hw, hyes⟩
    rw [h.writes v w hw hyes]
    constructor
    · intro hbuff
      exact ⟨⟨w, hw, hyes⟩, (Except.ok.inj hbuff).symm⟩
    · rintro ⟨_, rfl⟩
      rfl
  · have hno : ∀ w, hooked default v = .ok w →
        writable F (fun _ => false) (F.nesting + 1) w = false := by
      intro w hok
      rw [← Bool.not_eq_true]
      exact fun hyes => hw ⟨w, hok, hyes⟩
    rcases h.refuses v hno with ⟨ex, hex⟩
    rw [hex]
    constructor
    · intro hbuff
      cases hbuff
    · rintro ⟨hyes, _⟩
      exact absurd hyes hw

/-! ## Results -/

namespace BaseSerializer

/-- The text `dumps` writes for the exception of a result. -/
def excText (S : SpecialMethods) : PyVal → Except Exc PyVal
  | .none => .ok .none
  | exc => (exc.toStr S).map fun text => .str (bytes exc.typeName ++ bytes ": " ++ text)

/-- The dictionary of a result with that text. -/
def resultDict (result text value : PyVal) : PyVal :=
  .dict ((resultFields result text value).map fun f => (.str (bytes f.1), f.2))

theorem toDict_result_eq (S : SpecialMethods) (result exc value : PyVal) :
    toDict S (.result ⟨some result, some exc, some value⟩) =
      (excText S exc).map fun text =>
        (resultFields result text value).map fun f => (.str (bytes f.1), f.2) := by
  cases exc with
  | none => rfl
  | _ =>
      unfold toDict excText
      simp only [getattr, bind, Except.bind]
      split <;> (rename_i heq; rw [heq]; rfl)

theorem encodable_resultDict (h : codec.Documented F default) (result text value : PyVal) :
    encodable F (F.nesting + 1) (resultDict result text value) = true ↔
      encodable F F.nesting result = true ∧ encodable F F.nesting text = true ∧
        encodable F F.nesting value = true := by
  have hkey : ∀ name ∈ ["result", "exc", "meta", "is_request"],
      F.key (.str (bytes name)) = true := by
    intro name hname
    have hascii : (["result", "exc", "meta", "is_request"].all fun name =>
        (bytes name).all (· < 128)) = true := by decide
    exact (h.ascii _ (List.all_eq_true.mp hascii name hname)).2
  have hbool : encodable F F.nesting (.bool false) = true := by
    have hscalar := h.bool false
    cases hn : F.nesting <;> exact hscalar
  show (((resultFields result text value).map fun f => (PyVal.str (bytes f.1), f.2)).all
    fun p => F.key p.1 && encodable F F.nesting p.2) = true ↔ _
  simp only [resultFields, List.map_cons, List.map_nil, List.all_cons, List.all_nil, hkey _,
    List.mem_cons, true_or, or_true, Bool.true_and, hbool, Bool.and_true, Bool.and_eq_true]

/-- A result can be dumped if and only if its exception has a text and its values are
encodable. -/
theorem dumps_result_iff (S : SpecialMethods) (h : codec.Documented F default)
    (hprints : Prints default) (result exc value : PyVal) (buff : List UInt8) :
    dumps S codec default (.result ⟨some result, some exc, some value⟩) = .ok buff ↔
      ∃ text, excText S exc = .ok text ∧ encodable F F.nesting result = true ∧
        encodable F F.nesting text = true ∧ encodable F F.nesting value = true ∧
        buff = F.text (resultDict result text value) := by
  unfold dumps
  rw [toDict_result_eq]
  cases htext : excText S exc with
  | error ex =>
      constructor
      · intro hbuff
        cases hbuff
      · rintro ⟨text, hok, _⟩
        cases hok
  | ok text =>
      have hdumps : ∀ res : Except Exc (List UInt8),
          wrapErrors .serializationError res = .ok buff ↔ res = .ok buff := by
        intro res
        cases res with
        | ok b => exact Iff.rfl
        | error ex =>
            constructor
            · intro hb
              unfold wrapErrors at hb
              simp only at hb
              split at hb <;> cases hb
            · intro hb
              cases hb
      refine (hdumps (codec.dumps default (resultDict result text value))).trans ?_
      rw [codec_dumps_iff h hprints, encodable_resultDict h]
      constructor
      · rintro ⟨⟨hresult, hexc, hvalue⟩, rfl⟩
        exact ⟨text, rfl, hresult, hexc, hvalue, rfl⟩
      · rintro ⟨text', hok, hresult, hexc, hvalue, rfl⟩
        cases hok
        exact ⟨⟨hresult, hexc, hvalue⟩, rfl⟩

end BaseSerializer

/-! ## `pickle` -/

/-- What `pickle` writes: values of the built-in types nested at most `n` deep, exceptions of
`exception.py` with such a message, and the instances that their classes let it write. -/
def picklable (ofClass : String → List (String × PyVal) → Bool) : ℕ → PyVal → Bool
  | 0, .tuple _ | 0, .list _ | 0, .dict _ | 0, .baseError _ _ => false
  | n + 1, .tuple items | n + 1, .list items => items.all fun item => picklable ofClass n item
  | n + 1, .dict items =>
      items.all fun p => picklable ofClass n p.1 && picklable ofClass n p.2
  | n + 1, .baseError _ msg => picklable ofClass n msg
  | _, .instance cls attrs => ofClass cls attrs
  | _, _ => true

/-- What is documented of `pickle`, and what it writes for a result. -/
structure PickleFormat where
  ofClass : String → List (String × PyVal) → Bool
  nesting : ℕ
  text : Result → List UInt8

/-- `pickle` writes a result if and only if it can write its attributes. -/
structure Pickle.Documented (F : PickleFormat) (pickle : Pickle) : Prop where
  writes : ∀ result exc value, picklable F.ofClass F.nesting result = true →
    picklable F.ofClass F.nesting exc = true → picklable F.ofClass F.nesting value = true →
    pickle.dumps (.result ⟨some result, some exc, some value⟩) =
      .ok (F.text ⟨some result, some exc, some value⟩)
  refuses : ∀ result exc value, ¬ (picklable F.ofClass F.nesting result = true ∧
    picklable F.ofClass F.nesting exc = true ∧ picklable F.ofClass F.nesting value = true) →
    ∃ ex, pickle.dumps (.result ⟨some result, some exc, some value⟩) = .error ex

theorem pickle_dumps_iff {F : PickleFormat} {pickle : Pickle} (h : pickle.Documented F)
    (result exc value : PyVal) (buff : List UInt8) :
    (PickleSerializer pickle).dumps (.result ⟨some result, some exc, some value⟩) = .ok buff ↔
      picklable F.ofClass F.nesting result = true ∧ picklable F.ofClass F.nesting exc = true ∧
        picklable F.ofClass F.nesting value = true ∧
        buff = F.text ⟨some result, some exc, some value⟩ := by
  unfold PickleSerializer
  by_cases hyes : picklable F.ofClass F.nesting result = true ∧
      picklable F.ofClass F.nesting exc = true ∧ picklable F.ofClass F.nesting value = true
  · simp only [h.writes result exc value hyes.1 hyes.2.1 hyes.2.2, hyes, true_and]
    constructor
    · intro hbuff
      exact (Except.ok.inj hbuff).symm
    · rintro rfl
      rfl
  · rcases h.refuses result exc value hyes with ⟨ex, hex⟩
    simp only [hex]
    constructor
    · intro hbuff
      cases hbuff
    · rintro ⟨hresult, hexc, hvalue, _⟩
      exact absurd ⟨hresult, hexc, hvalue⟩ hyes

end SummerRpc
