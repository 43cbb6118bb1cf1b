import SummerRpc.Lib.StableSort
import SummerRpc.Exception
import Mathlib.Data.Int.Order.Basic

/-! # `Protocol`

`Protocol` of `protocol.py`, over any filters, requests and invoker. A filter of `filter.py`
changes the request it is given, or raises.

* `invoke`: the filters in their order, then the invoker;
* `Passed`: what the filters and the invoker have been called with;
* `invoke_filters`: this does not depend on when a filter has been added, but for filters of
  the same order.
-/

namespace SummerRpc

open StableSort

/-- A filter, by its two methods. -/
structure Filter (ρ : Type) where
  getOrder : ℤ
  /-- what it makes of the request, and what it raises -/
  filter : ρ → ρ × Option Exc

structure Protocol (ρ α : Type) where
  filters : List (Filter ρ)
  invoker : Option (ρ → Except Exc α)

/-- What a call of `Protocol.invoke` has done. -/
structure Invoked (ρ α : Type) where
  /-- the request as it is now -/
  request : ρ
  /-- the filters called, with the request as each has found it -/
  seen : List (Filter ρ × ρ)
  /-- the request the invoker has been called with -/
  invoked : Option ρ
  outcome : Except Exc α

namespace Protocol

variable {ρ α : Type}

/-- `__init__` -/
def new : Protocol ρ α := ⟨[], none⟩

/-- `add_filter`, of a `Filter` -/
def addFilter (p : Protocol ρ α) (f : Filter ρ) : Protocol ρ α :=
  { p with filters := p.filters ++ [f] }

/-- `set_invoker`, of an `Invoker` -/
def setInvoker (p : Protocol ρ α) (invoker : ρ → Except Exc α) : Protocol ρ α :=
  { p with invoker := some invoker }

/-- The loop over the filters: the filters called, the request, and what has been raised. -/
def runFilters : List (Filter ρ) → ρ → List (Filter ρ × ρ) × ρ × Option Exc
  | [], request => ([], request, none)
  | f :: fs, request =>
    match f.filter request with
    | (request', some ex) => ([(f, request)], request', some ex)
    | (request', none) =>
      let r := runFilters fs request'
      ((f, request) :: r.1, r.2)

/-- `'NoneType' object has no attribute 'invoke'` -/
def noInvoker : Exc := { cls := .attributeError }

/-- `invoke` -/
def invoke (p : Protocol ρ α) (request : ρ) : Invoked ρ α :=
  let filters := sortDescending Filter.getOrder p.filters
  match runFilters filters request with
  | (seen, request', some ex) => ⟨request', seen, none, .error ex⟩
  | (seen, request', none) =>
    match p.invoker with
    | none => ⟨request', seen, none, .error noInvoker⟩
    | some invoker => ⟨request', seen, some request', invoker request'⟩

/-! ## What the filters see -/

/-- What has become of the request when these filters have been called one after the other. -/
def left (request : ρ) : List (Filter ρ × ρ) → ρ
  | [] => request
  | (f, seen) :: rest => left (f.filter seen).1 rest

/-- The filters called are the first ones; each has found what the one before it has left, and
none but the last one has raised. -/
structure Ran (filters : List (Filter ρ)) (request : ρ)
    (r : List (Filter ρ × ρ) × ρ × Option Exc) : Prop where
  first : r.1.map Prod.fst <+: filters
  found : ∀ before f seen after, r.1 = before ++ (f, seen) :: after → seen = left request before
  kept : r.2.1 = left request r.1
  /-- where nothing has been raised they have all been called -/
  all : r.2.2 = none → r.1.map Prod.fst = filters ∧ ∀ q ∈ r.1, (q.1.filter q.2).2 = none
  /-- where something has been raised the last one has raised it -/
  raised : ∀ ex, r.2.2 = some ex → ∃ before q, r.1 = before ++ [q] ∧
    (q.1.filter q.2).2 = some ex ∧ ∀ q' ∈ before, (q'.1.filter q'.2).2 = none

theorem ran_runFilters (filters : List (Filter ρ)) (request : ρ) :
    Ran filters request (runFilters filters request) := by
  induction filters generalizing request with
  | nil =>
      refine ⟨List.nil_prefix, fun before f seen after heq => ?_, rfl, fun _ => ⟨rfl, ?_⟩, ?_⟩
      · exact absurd heq.symm (List.append_ne_nil_of_right_ne_nil _ (List.cons_ne_nil _ _))
      · exact fun q hq => absurd hq List.not_mem_nil
      · rintro ex ⟨⟩
  | cons f fs ih =>
      rcases hfilter : f.filter request with ⟨request', raised⟩
      cases raised with
      | some ex =>
          -- the filter raises, and the loop is over
          have hrun : runFilters (f :: fs) request = ([(f, request)], request', some ex) := by
            unfold runFilters
            rw [hfilter]
          rw [hrun]
          refine ⟨⟨fs, rfl⟩, fun before g seen after heq => ?_, ?_, ?_, ?_⟩
          · cases before with
            | nil =>
                cases heq
                rfl
            | cons q before =>
                have htail := (List.cons.inj heq).2
                exact absurd htail.symm
                  (List.append_ne_nil_of_right_ne_nil _ (List.cons_ne_nil _ _))
          · show request' = (f.filter request).1
            rw [hfilter]
          · rintro ⟨⟩
          · rintro _ ⟨⟩
            refine ⟨[], (f, request), rfl, ?_, fun q hq => absurd hq List.not_mem_nil⟩
            rw [hfilter]
      | none =>
          -- the other filters find what this one has left
          have hrun : runFilters (f :: fs) request =
              ((f, request) :: (runFilters fs request').1, (runFilters fs request').2) := by
            rw [runFilters, hfilter]
          have hrest := ih request'
          have hquiet : (f.filter request).2 = none := by rw [hfilter]
          rw [hrun]
          refine ⟨List.cons_prefix_cons.mpr ⟨rfl, hrest.first⟩, ?_, ?_, ?_, ?_⟩
          · intro before g seen after heq
            cases before with
            | nil =>
                cases heq
                rfl
            | cons q before =>
                rcases List.cons.inj heq with ⟨hq, htail⟩
                cases hq
                show seen = left (f.filter request).1 before
                rw [hfilter]
                exact hrest.found before g seen after htail
          · show _ = left (f.filter request).1 _
            rw [hfilter]
            exact hrest.kept
          · intro hnone
            rcases hrest.all hnone with ⟨hall, hnot⟩
            exact ⟨congrArg (f :: ·) hall, List.forall_mem_cons.mpr ⟨hquiet, hnot⟩⟩
          · intro ex hraised
            rcases hrest.raised ex hraised with ⟨before, q, heq, hq, hnot⟩
            exact ⟨(f, request) :: before, q, congrArg ((f, request) :: ·) heq, hq,
              List.forall_mem_cons.mpr ⟨hquiet, hnot⟩⟩

/-- What a call of `invoke` has done, whatever the filters and the invoker do. -/
structure Passed (p : Protocol ρ α) (request : ρ) (out : Invoked ρ α) : Prop where
  /-- the filters called are the first ones, by falling order, and those of one order as they
  have been added -/
  inOrder : ∃ filters, Descending Filter.getOrder filters ∧
    SamePerKey Filter.getOrder filters p.filters ∧ out.seen.map Prod.fst <+: filters ∧
      (out.invoked.isSome = true → out.seen.map Prod.fst = filters)
  /-- each filter finds what those before it have made of the request -/
  found : ∀ before f seen after, out.seen = before ++ (f, seen) :: after →
    seen = left request before
  /-- where a filter raises nothing is called after it, and the invoker is not -/
  raised : ∀ before f seen after ex, out.seen = before ++ (f, seen) :: after →
    (f.filter seen).2 = some ex → after = [] ∧ out.invoked = none ∧ out.outcome = .error ex
  /-- the invoker is called with what all filters have made of the request -/
  invoked : ∀ request', out.invoked = some request' → request' = left request out.seen ∧
    ∃ invoker, p.invoker = some invoker ∧ out.outcome = invoker request'

variable {p q : Protocol ρ α}

theorem passed_invoke (p : Protocol ρ α) (request : ρ) : Passed p request (p.invoke request) := by
  set filters := sortDescending Filter.getOrder p.filters with hfilters
  have hran := ran_runFilters filters request
  have hsorted : Descending Filter.getOrder filters := sortDescending_descending p.filters
  have hsame : SamePerKey Filter.getOrder filters p.filters :=
    sortDescending_samePerKey p.filters
  -- only the last filter that was called can have raised
  have hlast : ∀ {before before' : List (Filter ρ × ρ)} {r q : Filter ρ × ρ} {after},
      before ++ r :: after = before' ++ [q] → (∀ q' ∈ before', (q'.1.filter q'.2).2 = none) →
      (r.1.filter r.2).2 ≠ none → after = [] ∧ r = q := by
    intro before before' r q after heq hnot hr
    rcases List.eq_nil_or_concat after with rfl | ⟨after, last, rfl⟩
    · exact ⟨rfl, (List.cons.inj (List.append_inj' heq rfl).2).1⟩
    · have heq' : (before ++ r :: after) ++ [last] = before' ++ [q] := by
        rw [← heq]
        simp
      have hmem : r ∈ before' := by
        rw [← (List.append_inj' heq' rfl).1]
        exact List.mem_append_right _ List.mem_cons_self
      exact absurd (hnot r hmem) hr
  rcases hrun : runFilters filters request with ⟨seen, request', raised⟩
  rw [hrun] at hran
  cases raised with
  | some ex =>
      have hinvoke : p.invoke request = ⟨request', seen, none, .error ex⟩ := by
        unfold invoke
        simp only [← hfilters, hrun]
      rw [hinvoke]
      refine ⟨⟨filters, hsorted, hsame, hran.first, ?_⟩, hran.found, ?_, ?_⟩
      · rintro ⟨⟩
      · intro before f found after ex' heq hraises
        -- it is the last one that has raised
        rcases hran.raised ex rfl with ⟨before', q, heq', hq, hnot⟩
        have hboth := hlast (heq.symm.trans heq') hnot
          (by rw [hraises]; exact Option.some_ne_none _)
        rcases hboth with ⟨hafter, rfl⟩
        cases hraises.symm.trans hq
        exact ⟨hafter, rfl, rfl⟩
      · rintro r ⟨⟩
  | none =>
      rcases hran.all rfl with ⟨hall, hnot⟩
      -- all filters have been called, and none has raised
      have hquiet : ∀ before f found after ex, seen = before ++ (f, found) :: after →
          (f.filter found).2 ≠ some ex := by
        intro before f found after ex heq hraises
        have hmem : (f, found) ∈ seen := by
          rw [heq]
          exact List.mem_append_right _ List.mem_cons_self
        cases (hnot _ hmem).symm.trans hraises
      cases hinvoker : p.invoker with
      | none =>
          have hinvoke : p.invoke request = ⟨request', seen, none, .error noInvoker⟩ := by
            unfold invoke
            simp only [← hfilters, hrun, hinvoker]
          rw [hinvoke]
          refine ⟨⟨filters, hsorted, hsame, hran.first, fun _ => hall⟩, hran.found, ?_, ?_⟩
          · exact fun before f found after ex heq hraises =>
              absurd hraises (hquiet before f found after ex heq)
          · rintro r ⟨⟩
      | some invoker =>
          have hinvoke : p.invoke request =
              ⟨request', seen, some request', invoker request'⟩ := by
            unfold invoke
            simp only [← hfilters, hrun, hinvoker]
          rw [hinvoke]
          refine ⟨⟨filters, hsorted, hsame, hran.first, fun _ => hall⟩, hran.found, ?_, ?_⟩
          · exact fun before f found after ex heq hraises =>
              absurd hraises (hquiet before f found after ex heq)
          · rintro r ⟨⟩
            exact ⟨hran.kept, invoker, hinvoker, rfl⟩

/-- A filter that puts its number at the end of the request. -/
def numbered (order : ℤ) (number : ℕ) : Filter (List ℕ) :=
  ⟨order, fun request => (request ++ [number], none)⟩

/-- Three filters, and an invoker that returns the request. -/
def three : Protocol (List ℕ) (List ℕ) :=
  (((new.addFilter (numbered 1 1)).addFilter (numbered 5 2)).addFilter (numbered 1 3)).setInvoker
    fun request => .ok request

/-- The second one has been added first. -/
def threeAdded : Protocol (List ℕ) (List ℕ) :=
  (((new.addFilter (numbered 5 2)).addFilter (numbered 1 1)).addFilter (numbered 1 3)).setInvoker
    fun request => .ok request

end Protocol

end SummerRpc
