import SummerRpc.Pool.Exclusive

/-! # What becomes of the connections made

A connection that the factory has returned leaves the pool in four ways: its key is
kicked out, the pool is closed, it is released to a key that is gone or to a closed
pool, and the factory fails while its container is being filled. The first two close
it. In runs of calls made one at a time these are the only ways.

* `Accounted`, `Kept`: every connection made is closed, or the pool or a caller has it;
* `kept_step`: each step keeps it so, unless it drops an open connection;
* `no_leak`: between two calls nothing open is lost, and after `close` and the last
  release nothing is open;
* `leaks`: the two ways in which connections are lost.
-/

namespace SummerRpc

namespace LRUConnectionPool

variable {κ γ : Type} [PyHash κ]

/-! ## The invariant -/

/-- The connection is closed, or in the container of an entry or in the one being filled,
or, taken out of a container, with a caller or in the hands of a call. -/
def Accounted (P : ContainerClass γ) (s : LRUConnectionPool κ γ) (x : ℕ) : Prop :=
  s.dead x = true ∨
  (∃ e ∈ s.pool.entries, x ∈ P.connections (s.containers e.value)) ∨
  (∃ k, s.lock = some k ∧ x ∈ P.connections (s.containers k.container)) ∨
  (P.exclusive = true ∧
    ((∃ key, (key, x) ∈ s.held) ∨ ∃ key wait c, Call.inspect key wait c x ∈ s.calls))

/-- What the pool keeps up in runs of calls made one at a time. -/
structure Kept (P : ContainerClass γ) (valid : γ → Prop) (s : LRUConnectionPool κ γ)
    (created : List ℕ) : Prop where
  valid : ∀ c, valid (s.containers c)
  alone : s.calls.length ≤ 1
  lock : ∀ k, s.lock = some k → s.calls = [] ∧ s.closed = false
  /-- a call works on the container of an entry -/
  place : ∀ call ∈ s.calls, ∀ key c, call.place = some (key, c) →
    s.closed = false ∧ s.lock = none ∧ ∃ e ∈ s.pool.entries, e.value = c
  kept : ∀ x ∈ created, Accounted P s x
  shut : s.closed = true → ∀ e ∈ s.pool.entries, P.connections (s.containers e.value) = []

/-- A connection that is dropped is closed: when the factory fails, those made for the
container before; when the key of a release is gone, the one released. -/
def dropsClosed [DecidableEq κ] (P : ContainerClass γ) (l : Label κ)
    (s : LRUConnectionPool κ γ) : Bool :=
  match l with
  | .create k (.error _) => (P.connections (s.containers k.container)).all s.dead
  | .release key x => !P.exclusive || s.dead x || (!s.closed && s.pool.contains key)
  | _ => true

/-- Calls of `get_connection`, `release_connection` and `close`, made one at a time. -/
def oneCall (l : Label κ) (s : LRUConnectionPool κ γ) : Bool :=
  oneAtATime l s &&
    match l with
    | .close => s.calls.isEmpty && s.lock.isNone
    | _ => true

namespace Accounted

variable {P : ContainerClass γ} {s : LRUConnectionPool κ γ} {x : ℕ}

theorem ofDead (h : s.dead x = true) : Accounted P s x := Or.inl h

theorem inEntry {e : Entry κ ℕ} (he : e ∈ s.pool.entries)
    (hin : x ∈ P.connections (s.containers e.value)) : Accounted P s x := Or.inr (Or.inl ⟨e, he, hin⟩)

theorem inFilling {k : Creating κ} (hk : s.lock = some k)
    (hin : x ∈ P.connections (s.containers k.container)) : Accounted P s x :=
  Or.inr (Or.inr (Or.inl ⟨k, hk, hin⟩))

theorem ofHeld {key : κ} (hexcl : P.exclusive = true) (hmem : (key, x) ∈ s.held) :
    Accounted P s x := Or.inr (Or.inr (Or.inr ⟨hexcl, Or.inl ⟨key, hmem⟩⟩))

theorem inHand {key : κ} {wait : Wait} {c : ℕ} (hexcl : P.exclusive = true)
    (hmem : Call.inspect key wait c x ∈ s.calls) : Accounted P s x :=
  Or.inr (Or.inr (Or.inr ⟨hexcl, Or.inr ⟨key, wait, c, hmem⟩⟩))

end Accounted

/-! ## One step -/

section Step

variable {P : ContainerClass γ} {valid : γ → Prop} {n : ℕ} {s t : LRUConnectionPool κ γ}
  {created created' : List ℕ}

/-- The call under way is the only one. -/
theorem Kept.calls_eq (h : Kept P valid s created) {call : Call κ} (hcall : call ∈ s.calls) :
    s.calls = [call] := by
  have hle := h.alone
  cases hcalls : s.calls with
  | nil =>
      rw [hcalls] at hcall
      cases hcall
  | cons first rest =>
      rw [hcalls, List.length_cons] at hle
      have hrest : rest = [] := List.eq_nil_of_length_eq_zero (by omega)
      rw [hcalls, hrest] at hcall
      rw [hrest, List.mem_singleton.mp hcall]

/-- A step that leaves the containers alone, and takes nothing from a caller. -/
theorem Kept.still (h : Kept P valid s created) (hcontainers : t.containers = s.containers)
    (hpool : ∀ e, e ∈ t.pool.entries ↔ e ∈ s.pool.entries) (hclosed : t.closed = s.closed)
    (hlock : t.lock = s.lock) (hdead : ∀ x, s.dead x = true → t.dead x = true)
    (hheld : ∀ item ∈ s.held, item ∈ t.held ∨ P.exclusive = false ∨ s.dead item.2 = true)
    (halone : t.calls.length ≤ 1) (hidle : ∀ k, s.lock = some k → t.calls = [])
    (hplace : ∀ call ∈ t.calls, ∀ key c, call.place = some (key, c) →
      s.closed = false ∧ s.lock = none ∧ ∃ e ∈ s.pool.entries, e.value = c)
    (hhand : ∀ key wait c x, Call.inspect key wait c x ∈ s.calls →
      Call.inspect key wait c x ∈ t.calls) :
    Kept P valid t created := by
  constructor
  · rw [hcontainers]
    exact h.valid
  · exact halone
  · intro k hk
    rw [hlock] at hk
    rw [hclosed]
    exact ⟨hidle k hk, (h.lock k hk).2⟩
  · intro call hcall key c hc
    obtain ⟨hopen, hnone, e, he, hvalue⟩ := hplace call hcall key c hc
    rw [hclosed, hlock]
    exact ⟨hopen, hnone, e, (hpool e).mpr he, hvalue⟩
  · intro x hx
    rcases h.kept x hx with hd | ⟨e, he, hin⟩ | ⟨k, hk, hin⟩ |
      ⟨hexcl, ⟨key, hmem⟩ | ⟨key, wait, c, hcall⟩⟩
    · exact .ofDead (hdead x hd)
    · exact .inEntry ((hpool e).mpr he) (by rw [hcontainers]; exact hin)
    · exact .inFilling (hlock.trans hk) (by rw [hcontainers]; exact hin)
    · rcases hheld _ hmem with hstays | hshared | hd
      · exact .ofHeld hexcl hstays
      · rw [hexcl] at hshared
        cases hshared
      · exact .ofDead (hdead x hd)
    · exact .inHand hexcl (hhand key wait c x hcall)
  · intro hc e he
    rw [hcontainers]
    exact h.shut (hclosed ▸ hc) e ((hpool e).mp he)

variable [DecidableEq κ]

/-- A call that goes on at its place, or leaves, with what it has done to the container
of an entry. -/
theorem Kept.work (h : Kept P valid s created) {call : Call κ} {key : κ} {c : ℕ} {y : γ}
    (nexts : List (Call κ)) (hcall : call ∈ s.calls) (hplace : call.place = some (key, c))
    (hy : valid y) (hcontainers : t.containers = Function.update s.containers c y)
    (hpool : t.pool = s.pool) (hclosed : t.closed = s.closed) (hlock : t.lock = s.lock)
    (hdead : t.dead = s.dead) (hcalls : t.calls = nexts ++ s.calls.erase call)
    (hone : nexts.length ≤ 1) (hnexts : ∀ next ∈ nexts, next.place = some (key, c))
    (hin : ∀ x ∈ P.connections (s.containers c), x ∈ P.connections y ∨ s.dead x = true ∨
      (P.exclusive = true ∧ ∃ key wait d, Call.inspect key wait d x ∈ nexts))
    (hheld : P.exclusive = true → ∀ item ∈ s.held, item ∈ t.held ∨ item.2 ∈ P.connections y)
    (hhand : P.exclusive = true → ∀ key wait d x, call = .inspect key wait d x →
      s.dead x = true ∨ ∃ key', (key', x) ∈ t.held)
    (hcreated : ∀ x ∈ created', x ∈ created ∨ x ∈ P.connections y) : Kept P valid t created' := by
  obtain ⟨hopen, hnone, d, hd, hvalue⟩ := h.place call hcall key c hplace
  have hcalls' : t.calls = nexts := by
    rw [hcalls, h.calls_eq hcall, List.erase_cons_head, List.append_nil]
  have hself : t.containers c = y := by rw [hcontainers, Function.update_self]
  have hinside : ∀ x ∈ P.connections y, Accounted P t x := fun x hx =>
    .inEntry (by rw [hpool]; exact hd) (by rw [hvalue, hself]; exact hx)
  constructor
  · rw [hcontainers]
    exact valid_update _ hy h.valid
  · rw [hcalls']
    exact hone
  · intro k hk
    rw [hlock, hnone] at hk
    cases hk
  · intro next hnext key' c' hp
    rw [hcalls'] at hnext
    rw [hnexts next hnext] at hp
    cases hp
    rw [hclosed, hlock, hpool]
    exact ⟨hopen, hnone, d, hd, hvalue⟩
  · intro x hx
    rcases hcreated x hx with hold | hnew
    · rcases h.kept x hold with hdx | ⟨e, he, hmem⟩ | ⟨k, hk, _⟩ |
        ⟨hexcl, ⟨key', hmem⟩ | ⟨key', wait, d', hmem⟩⟩
      · exact .ofDead (by rw [hdead]; exact hdx)
      · by_cases hec : e.value = c
        · -- in the container that the call works on
          rw [hec] at hmem
          rcases hin x hmem with hstays | hdx | ⟨hexcl, key', wait, d', hnext⟩
          · exact hinside x hstays
          · exact .ofDead (by rw [hdead]; exact hdx)
          · rw [← hcalls'] at hnext
            exact .inHand hexcl hnext
        · refine .inEntry (by rw [hpool]; exact he) ?_
          rw [hcontainers, Function.update_of_ne hec]
          exact hmem
      · rw [hnone] at hk
        cases hk
      · rcases hheld hexcl _ hmem with hstays | hput
        · exact .ofHeld hexcl hstays
        · exact hinside x hput
      · -- in the hands of the call itself, the only one there is
        rw [h.calls_eq hcall, List.mem_singleton] at hmem
        rcases hhand hexcl key' wait d' x hmem.symm with hdx | ⟨key'', hgiven⟩
        · exact .ofDead (by rw [hdead]; exact hdx)
        · exact .ofHeld hexcl hgiven
    · exact hinside x hnew
  · intro hc
    rw [hclosed, hopen] at hc
    cases hc

/-- The only call leaves, and has dropped nothing that is open. -/
theorem Kept.leave (h : Kept P valid s created) {call : Call κ} (hcall : call ∈ s.calls)
    (hnone : call.place = none) (hcontainers : t.containers = s.containers)
    (hpool : t.pool = s.pool) (hclosed : t.closed = s.closed) (hlock : t.lock = s.lock)
    (hdead : t.dead = s.dead)
    (hheld : ∀ item ∈ s.held, item ∈ t.held ∨ P.exclusive = false ∨ s.dead item.2 = true)
    (hcalls : t.calls = s.calls.erase call) : Kept P valid t created := by
  have hnil : t.calls = [] := by rw [hcalls, h.calls_eq hcall, List.erase_cons_head]
  refine h.still hcontainers (fun e => by rw [hpool]) hclosed hlock (fun x hx => by rw [hdead, hx])
    hheld (by rw [hnil]; exact Nat.zero_le _) (fun _ _ => hnil) ?_ ?_
  · intro other hother
    rw [hnil] at hother
    cases hother
  · intro key wait c x hmem
    rw [h.calls_eq hcall, List.mem_singleton] at hmem
    rw [← hmem] at hnone
    cases hnone

/-- The only call finds its key in the pool. -/
theorem Kept.found (h : Kept P valid s created) {call next : Call κ} {key : κ} {c : ℕ}
    {pool : LRUCache κ ℕ} (hcall : call ∈ s.calls) (hnone : call.place = none)
    (hlock : s.lock = none) (hopen : s.closed = false)
    (hget : s.pool.getItem key = some (c, pool)) (hnext : next.place = some (key, c)) :
    Kept P valid ({ s with pool := pool }.goOn call next) created := by
  obtain ⟨e, he, _, hvalue, _⟩ := LRUCache.getItem_some hget
  have hcalls : ({ s with pool := pool }.goOn call next).calls = [next] := by
    show next :: s.calls.erase call = [next]
    rw [h.calls_eq hcall, List.erase_cons_head]
  refine h.still rfl ?_ rfl rfl (fun _ hx => hx) (fun _ hmem => Or.inl hmem)
    (by rw [hcalls]; exact Nat.le_refl _) ?_ ?_ ?_
  · exact fun _ => LRUCache.mem_getItem hget
  · intro k hk
    rw [hlock] at hk
    cases hk
  · intro other hother key' c' hplace
    rw [hcalls, List.mem_singleton] at hother
    rw [hother, hnext] at hplace
    cases hplace
    exact ⟨hopen, hlock, e, he, hvalue⟩
  · intro key' wait c' x hmem
    rw [h.calls_eq hcall, List.mem_singleton] at hmem
    rw [← hmem] at hnone
    cases hnone

theorem kept_lookup (hP : Lawful P valid) (hnum : Numbered s) (h : Kept P valid s created) {key : κ}
    {wait : Wait} (hcall : Call.get key wait ∈ s.calls) (hlock : s.lock = none) :
    Kept P valid (s.doLookup P n key wait) created := by
  unfold doLookup
  split
  · exact h.leave hcall rfl rfl rfl rfl rfl rfl (fun _ hmem => Or.inl hmem) rfl
  · rename_i hclosed
    have hopen : s.closed = false := by simpa using hclosed
    split
    · rename_i c pool hget
      exact h.found hcall rfl hlock hopen hget rfl
    · -- the containers of the entries are old ones
      have hnil : s.calls.erase (.get key wait) = [] := by
        rw [h.calls_eq hcall, List.erase_cons_head]
      have hold : ∀ e ∈ s.pool.entries,
          Function.update s.containers s.containerCount P.getConnectionContainer e.value =
            s.containers e.value :=
        fun e he => Function.update_of_ne (Nat.ne_of_lt (hnum.entries e he)) _ _
      constructor
      · exact valid_update _ hP.valid_get h.valid
      · show (s.calls.erase (.get key wait)).length ≤ 1
        rw [hnil]
        exact Nat.zero_le _
      · exact fun _ _ => ⟨hnil, hopen⟩
      · intro other hother
        change other ∈ s.calls.erase (.get key wait) at hother
        rw [hnil] at hother
        cases hother
      · intro x hx
        rcases h.kept x hx with hd | ⟨e, he, hmem⟩ | ⟨k, hk, _⟩ |
          ⟨hexcl, ⟨key', hmem⟩ | ⟨key', wait', c, hmem⟩⟩
        · exact .ofDead hd
        · refine .inEntry he ?_
          show x ∈ P.connections (Function.update s.containers s.containerCount _ e.value)
          rw [hold e he]
          exact hmem
        · rw [hlock] at hk
          cases hk
        · exact .ofHeld hexcl hmem
        · rw [h.calls_eq hcall, List.mem_singleton] at hmem
          cases hmem
      · intro hc
        change s.closed = true at hc
        rw [hopen] at hc
        cases hc

theorem kept_create (hP : Lawful P valid) (hnum : Numbered s) (h : Kept P valid s created)
    {k : Creating κ} {made : Except Exc ℕ} (hlock : s.lock = some k)
    (hdrops : dropsClosed P (.create k made) s = true) :
    Kept P valid (s.doCreate P k made) (recordCreated (.create k made) s created) := by
  obtain ⟨hnil, hopen⟩ := h.lock k hlock
  cases made with
  | error ex =>
      refine ⟨h.valid, h.alone, nofun, ?_, ?_, h.shut⟩
      · intro call hcall
        change call ∈ s.calls at hcall
        rw [hnil] at hcall
        cases hcall
      · intro x hx
        rcases h.kept x hx with hd | hin | ⟨k', hk', hmem⟩ | hout
        · exact .ofDead hd
        · exact Or.inr (Or.inl hin)
        · -- what has been made for the container is closed
          rw [hlock] at hk'
          cases hk'
          exact .ofDead (List.all_eq_true.mp hdrops x hmem)
        · exact Or.inr (Or.inr (Or.inr hout))
  | ok x =>
      have hother : ∀ e ∈ s.pool.entries, e.value ≠ k.container :=
        fun e he => (hnum.lock_entries k hlock e he).1
      have hmade : ∀ y,
          y ∈ P.connections (P.addConnectionToContainer (s.containers k.container) x) ↔
          y = x ∨ y ∈ P.connections (s.containers k.container) :=
        fun y => (hP.add _ x).mem_iff.trans List.mem_cons
      have hself : (s.doCreate P k (.ok x)).containers k.container =
          P.addConnectionToContainer (s.containers k.container) x := Function.update_self _ _ _
      have hold : ∀ e ∈ s.pool.entries,
          (s.doCreate P k (.ok x)).containers e.value = s.containers e.value :=
        fun e he => Function.update_of_ne (hother e he) _ _
      constructor
      · exact valid_update _ (hP.valid_add _ x (h.valid _)) h.valid
      · exact h.alone
      · exact fun _ _ => ⟨hnil, hopen⟩
      · intro call hcall
        change call ∈ s.calls at hcall
        rw [hnil] at hcall
        cases hcall
      · intro y hy
        have hfilling : y = x ∨ y ∈ P.connections (s.containers k.container) →
            Accounted P (s.doCreate P k (.ok x)) y := by
          intro hin
          refine .inFilling rfl ?_
          show y ∈ P.connections ((s.doCreate P k (.ok x)).containers k.container)
          rw [hself]
          exact (hmade y).mpr hin
        rcases List.mem_cons.mp hy with rfl | hmem
        · exact hfilling (Or.inl rfl)
        · rcases h.kept y hmem with hd | ⟨e, he, hin⟩ | ⟨k', hk', hin⟩ | hout
          · exact .ofDead hd
          · exact .inEntry he (by rw [hold e he]; exact hin)
          · rw [hlock] at hk'
            cases hk'
            exact hfilling (Or.inr hin)
          · exact Or.inr (Or.inr (Or.inr hout))
      · intro hc
        change s.closed = true at hc
        rw [hopen] at hc
        cases hc

omit [DecidableEq κ] in
theorem kept_register (hC : Closes P valid) (hnum : Numbered s) (h : Kept P valid s created)
    {k : Creating κ} (hlock : s.lock = some k) : Kept P valid (s.doRegister P k) created := by
  obtain ⟨hnil, hopen⟩ := h.lock k hlock
  have hclosing := closeKickedOut_closed hC s
  have hframe := hclosing.frame
  have hcalls : (s.doRegister P k).calls = [.choose k.key k.wait k.container] := by
    show _ :: s.calls = _
    rw [hnil]
  have hnew : ⟨k.key, k.container⟩ ∈ (s.doRegister P k).pool.entries :=
    (mem_register P hnum hlock).mpr (Or.inl rfl)
  have huntouched : ∀ c, (∀ d ∈ s.pool.entries, s.pool.willBeKickedOut = some d → d.value ≠ c) →
      (s.doRegister P k).containers c = s.containers c := by
    intro c hc
    apply hclosing.untouched
    intro hmem
    obtain ⟨d, hd, hvalue⟩ := List.mem_map.mp hmem
    have hkicked : s.pool.willBeKickedOut = some d := Option.mem_toList.mp hd
    exact hc d (List.mem_of_getLast? (LRUCache.willBeKickedOut_some hkicked).2) hkicked hvalue
  constructor
  · exact hclosing.valid h.valid
  · rw [hcalls]
    exact Nat.le_refl _
  · exact nofun
  · intro call hcall key c hplace
    rw [hcalls, List.mem_singleton] at hcall
    rw [hcall] at hplace
    cases hplace
    refine ⟨?_, rfl, _, hnew, rfl⟩
    show (s.closeKickedOut P).closed = false
    rw [hframe]
    exact hopen
  · intro x hx
    rcases h.kept x hx with hd | ⟨e, he, hin⟩ | ⟨k', hk', hin⟩ |
      ⟨hexcl, ⟨key, hmem⟩ | ⟨key, wait, c, hmem⟩⟩
    · exact .ofDead (hclosing.dead_mono x hd)
    · by_cases hout : s.pool.willBeKickedOut = some e
      · -- the connections of the entry kicked out are closed
        refine .ofDead (hclosing.dead e.value ?_ x hin)
        rw [kicked, hout]
        exact List.mem_singleton_self _
      · refine .inEntry ((mem_register P hnum hlock).mpr (Or.inr ⟨he, hout⟩)) ?_
        rw [huntouched]
        · exact hin
        · intro d hd hkicked hvalue
          rw [hnum.inj d hd e he hvalue] at hkicked
          exact hout hkicked
    · -- the container that was being filled is that of the new entry
      rw [hlock] at hk'
      cases hk'
      refine .inEntry hnew ?_
      show x ∈ P.connections ((s.doRegister P k).containers k.container)
      rw [huntouched]
      · exact hin
      · intro d hd _ hvalue
        exact (hnum.lock_entries k hlock d hd).1 hvalue
    · have hstays : (key, x) ∈ (s.closeKickedOut P).held := by
        rw [hframe]
        exact hmem
      exact .ofHeld hexcl hstays
    · rw [hnil] at hmem
      cases hmem
  · intro hc
    change (s.closeKickedOut P).closed = true at hc
    rw [hframe] at hc
    change s.closed = true at hc
    rw [hopen] at hc
    cases hc

theorem kept_choose (hP : Lawful P valid) (h : Kept P valid s created) {key : κ} {wait : Wait}
    {c : ℕ} (hcall : Call.choose key wait c ∈ s.calls) :
    Kept P valid (s.doChoose P key wait c) created := by
  unfold doChoose
  split
  · rename_i x y hgot
    have hperm := hP.choice_got _ x y (h.valid c) hgot
    refine h.work [.inspect key wait c x] hcall rfl (hP.valid_choice _ x y (h.valid c) hgot) rfl rfl
      rfl rfl rfl rfl (Nat.le_refl _) ?_ ?_ (fun _ _ hmem => Or.inl hmem) nofun
      (fun _ hx => Or.inl hx)
    · exact List.forall_mem_singleton.mpr rfl
    · intro z hz
      cases hexcl : P.exclusive with
      | true =>
          -- a dedicated container gives the connection into the hands of the call
          rw [hexcl, if_pos rfl] at hperm
          rcases List.mem_cons.mp (hperm.mem_iff.mp hz) with rfl | hrest
          · exact Or.inr (Or.inr ⟨rfl, key, wait, c, List.mem_singleton_self _⟩)
          · exact Or.inl hrest
      | false =>
          rw [hexcl, if_neg Bool.false_ne_true] at hperm
          exact Or.inl (hperm.mem_iff.mp hz)
  · exact h
  · exact h.work [] hcall rfl (h.valid c) (Function.update_eq_self c _).symm rfl rfl rfl rfl rfl
      (Nat.zero_le _) nofun (fun _ hx => Or.inl hx) (fun _ _ hmem => Or.inl hmem) nofun
      (fun _ hx => Or.inl hx)

theorem kept_giveUp (h : Kept P valid s created) {key : κ} {wait : Wait} {c : ℕ} (ex : Exc)
    (hcall : Call.choose key wait c ∈ s.calls) :
    Kept P valid (s.raise (.choose key wait c) key ex) created :=
  h.work [] hcall rfl (h.valid c) (Function.update_eq_self c _).symm rfl rfl rfl rfl rfl
    (Nat.zero_le _) nofun (fun _ hx => Or.inl hx) (fun _ _ hmem => Or.inl hmem) nofun
    (fun _ hx => Or.inl hx)

theorem kept_inspect (hP : Lawful P valid) (h : Kept P valid s created) {key : κ} {wait : Wait}
    {c x : ℕ} (hcall : Call.inspect key wait c x ∈ s.calls) :
    Kept P valid (s.doInspect P key wait c x) created := by
  unfold doInspect
  split
  · rename_i hdead
    have hperm := hP.remove (s.containers c) x
    refine h.work [.replace key wait c] hcall rfl (hP.valid_remove _ x (h.valid c)) rfl rfl rfl rfl
      rfl rfl (Nat.le_refl _) ?_ ?_ (fun _ _ hmem => Or.inl hmem) ?_ (fun _ hx => Or.inl hx)
    · exact List.forall_mem_singleton.mpr rfl
    · -- only the closed connection is removed
      intro z hz
      by_cases hzx : z = x
      · exact Or.inr (Or.inl (by rw [hzx]; exact hdead))
      · left
        rw [hperm.mem_iff]
        split
        · exact hz
        · exact (List.mem_erase_of_ne hzx).mpr hz
    · rintro _ key' wait' d z ⟨⟩
      exact Or.inl hdead
  · refine h.work [] hcall rfl (h.valid c) (Function.update_eq_self c _).symm rfl rfl rfl rfl rfl
      (Nat.zero_le _) nofun (fun _ hz => Or.inl hz)
      (fun _ _ hmem => Or.inl (List.mem_cons_of_mem _ hmem)) ?_ (fun _ hz => Or.inl hz)
    -- what the call had in its hands is with the caller now
    rintro _ key' wait' d z ⟨⟩
    exact Or.inr ⟨key, List.mem_cons_self⟩

theorem kept_replace (hP : Lawful P valid) (h : Kept P valid s created) {key : κ} {wait : Wait}
    {c : ℕ} {made : Except Exc ℕ} (hcall : Call.replace key wait c ∈ s.calls) :
    Kept P valid (s.doReplace P key wait c made)
      (recordCreated (.replace key wait c made) s created) := by
  cases made with
  | error ex =>
      exact h.work [] hcall rfl (h.valid c) (Function.update_eq_self c _).symm rfl rfl rfl rfl rfl
        (Nat.zero_le _) nofun (fun _ hx => Or.inl hx) (fun _ _ hmem => Or.inl hmem) nofun
        (fun _ hx => Or.inl hx)
  | ok x =>
      have hmade := hP.add (s.containers c) x
      refine h.work [.choose key wait c] hcall rfl (hP.valid_add _ x (h.valid c)) rfl rfl rfl rfl rfl
        rfl (Nat.le_refl _) ?_ ?_ (fun _ _ hmem => Or.inl hmem) nofun ?_
      · exact List.forall_mem_singleton.mpr rfl
      · intro z hz
        exact Or.inl (hmade.mem_iff.mpr (List.mem_cons_of_mem _ hz))
      · intro z hz
        rcases List.mem_cons.mp hz with rfl | hold
        · exact Or.inr (hmade.mem_iff.mpr List.mem_cons_self)
        · exact Or.inl hold

theorem kept_release (h : Kept P valid s created) {key : κ} {x : ℕ}
    (hcall : Call.release key x ∈ s.calls) (hlock : s.lock = none)
    (hdrops : dropsClosed P (.release key x) s = true) :
    Kept P valid (s.doRelease key x) created := by
  -- a release that finds no entry drops a connection
  have hdrop : (!s.closed && s.pool.contains key) = false →
      Kept P valid ({ s with held := s.held.erase (key, x) }.leave (.release key x)) created := by
    intro hgone
    refine h.leave hcall rfl rfl rfl rfl rfl rfl ?_ rfl
    intro item hitem
    by_cases hsame : item = (key, x)
    · rw [hsame]
      simpa [dropsClosed, hgone] using Or.inr hdrops
    · exact Or.inl ((List.mem_erase_of_ne hsame).mpr hitem)
  unfold doRelease
  split
  · rename_i hclosed
    exact hdrop (by rw [hclosed]; rfl)
  · rename_i hclosed
    split
    · rename_i c pool hget
      exact h.found hcall rfl hlock (by simpa using hclosed) hget rfl
    · rename_i hget
      exact hdrop (by rw [LRUCache.getItem_none hget, Bool.and_false])

theorem kept_put (hP : Lawful P valid) (h : Kept P valid s created) {key : κ} {c x : ℕ}
    (hcall : Call.put key c x ∈ s.calls) : Kept P valid (s.doPut P key c x) created := by
  have hperm := hP.release (s.containers c) x
  refine h.work [] hcall rfl (hP.valid_release _ x (h.valid c)) rfl rfl rfl rfl rfl rfl
    (Nat.zero_le _) nofun ?_ ?_ nofun (fun _ hz => Or.inl hz)
  · intro z hz
    left
    rw [hperm.mem_iff]
    split
    · exact List.mem_cons_of_mem _ hz
    · exact hz
  · -- a dedicated container takes back what the caller gives up
    intro hexcl item hitem
    by_cases hsame : item = (key, x)
    · right
      rw [hsame, hperm.mem_iff, if_pos hexcl]
      exact List.mem_cons_self
    · exact Or.inl ((List.mem_erase_of_ne hsame).mpr hitem)

omit [DecidableEq κ] in
theorem kept_close (hC : Closes P valid) (h : Kept P valid s created) (hcalls : s.calls = [])
    (hlock : s.lock = none) : Kept P valid (s.doClose P) created := by
  cases hopen : s.closed with
  | true =>
      rw [doClose_of_closed hopen]
      exact h
  | false =>
      obtain ⟨u, heq, hall⟩ := doClose_closed hC hopen
      have hin : ∀ e ∈ s.pool.entries, e.value ∈ s.pool.entries.reverse.map Entry.value :=
        fun e he => List.mem_map.mpr ⟨e, List.mem_reverse.mpr he, rfl⟩
      rw [heq, hall.frame]
      constructor
      · exact hall.valid h.valid
      · exact h.alone
      · intro k hk
        change s.lock = some k at hk
        rw [hlock] at hk
        cases hk
      · intro call hcall
        change call ∈ s.calls at hcall
        rw [hcalls] at hcall
        cases hcall
      · intro x hx
        rcases h.kept x hx with hd | ⟨e, he, hmem⟩ | ⟨k, hk, _⟩ | hout
        · exact .ofDead (hall.dead_mono x hd)
        · exact .ofDead (hall.dead e.value (hin e he) x hmem)
        · rw [hlock] at hk
          cases hk
        · exact Or.inr (Or.inr (Or.inr hout))
      · intro _ e he
        exact hall.emptied e.value (hin e he)

theorem kept_step (hP : Lawful P valid) (hC : Closes P valid) {l : Label κ} (hg : guard P l s)
    (hone : oneCall l s = true) (hdrops : dropsClosed P l s = true) (hnum : Numbered s)
    (h : Kept P valid s created) : Kept P valid (update P n l s) (recordCreated l s created) := by
  -- a call begins when there is none
  have hbegin : ∀ call : Call κ, call.place = none → s.calls = [] → s.lock = none →
      Kept P valid { s with calls := call :: s.calls } created := by
    intro call hplace hnil hlock
    refine h.still rfl (fun _ => Iff.rfl) rfl rfl (fun _ hx => hx) (fun _ hmem => Or.inl hmem) ?_ ?_
      ?_ (fun _ _ _ _ hmem => List.mem_cons_of_mem _ hmem)
    · show (call :: s.calls).length ≤ 1
      rw [hnil]
      exact Nat.le_refl _
    · intro k hk
      rw [hlock] at hk
      cases hk
    · intro other hother key c hp
      rw [hnil] at hother
      rw [List.mem_singleton.mp hother, hplace] at hp
      cases hp
  cases l with
  | getStart key wait =>
      simp only [oneCall, oneAtATime, Bool.and_true, Bool.and_eq_true, List.isEmpty_iff,
        Option.isNone_iff_eq_none] at hone
      exact hbegin _ rfl hone.1 hone.2
  | lookup key wait => exact kept_lookup hP hnum h hg.1 hg.2
  | create k made => exact kept_create hP hnum h hg.1 hdrops
  | register k => exact kept_register hC hnum h hg.1
  | choose key wait c => exact kept_choose hP h hg.1
  | giveUp key wait c => exact kept_giveUp h _ hg.1
  | inspect key wait c x => exact kept_inspect hP h hg
  | replace key wait c made => exact kept_replace hP h hg
  | releaseStart key x =>
      simp only [oneCall, oneAtATime, Bool.and_true, Bool.and_eq_true, List.isEmpty_iff,
        Option.isNone_iff_eq_none] at hone
      exact hbegin _ rfl hone.1 hone.2
  | release key x => exact kept_release h hg.1 hg.2 hdrops
  | put key c x => exact kept_put hP h hg
  | close =>
      simp only [oneCall, oneAtATime, Bool.true_and, Bool.and_eq_true, List.isEmpty_iff,
        Option.isNone_iff_eq_none] at hone
      exact kept_close hC h hone.1 hone.2
  | die x =>
      refine h.still rfl (fun _ => Iff.rfl) rfl rfl ?_ (fun _ hmem => Or.inl hmem) h.alone
        (fun k hk => (h.lock k hk).1) h.place (fun _ _ _ _ hmem => hmem)
      intro y hy
      show (s.dead y || _) = true
      rw [hy, Bool.true_or]

end Step

/-! ## Every run -/

section Run

variable [DecidableEq κ]

/-- The runs of calls made one at a time in which no open connection is dropped. -/
abbrev tidy (P : ContainerClass γ) (size : Option ℕ) (n : ℕ) :
    Lts.Spec (LRUConnectionPool κ γ × List ℕ) (Label κ) :=
  ((system P size n).withHistory recordCreated []).restrict fun l p =>
    oneCall l p.1 && dropsClosed P l p.1

theorem kept_reachable {P : ContainerClass γ} {valid : γ → Prop} (hP : Lawful P valid)
    (hC : Closes P valid) (size : Option ℕ) (n : ℕ) :
    ∀ p : LRUConnectionPool κ γ × List ℕ, (tidy P size n).Reachable p →
      Kept P valid p.1 p.2 := by
  apply Lts.Spec.invariant_with (tidy P size n) (fun p => Numbered p.1)
  · intro p hr
    exact numbered_reachable hC size n p.1 hr.of_restrict.of_history
  · rintro ⟨s, created⟩ ⟨⟨dead, hs⟩, hcreated⟩
    cases hs
    cases hcreated
    exact ⟨fun _ => hP.valid_get, Nat.zero_le _, nofun, nofun, nofun, nofun⟩
  · intro l p hg hnum _ h
    have hcond := hg.2
    simp only [Bool.and_eq_true] at hcond
    exact kept_step hP hC hg.1 hcond.1 hcond.2 hnum h

/-- Nothing that the factory has made is lost while it is open; when the pool is closed
and nobody holds a connection, none is open. -/
structure NoLeak (P : ContainerClass γ) (s : LRUConnectionPool κ γ) (created : List ℕ) : Prop where
  kept : ∀ x ∈ created, s.dead x = false →
    (∃ key, (key, x) ∈ s.held) ∨ ∃ e ∈ s.pool.entries, x ∈ P.connections (s.containers e.value)
  closed : s.closed = true → s.held = [] → ∀ x ∈ created, s.dead x = true

omit [DecidableEq κ] in
theorem noLeak_of_kept {P : ContainerClass γ} {valid : γ → Prop} {s : LRUConnectionPool κ γ}
    {created : List ℕ} (h : Kept P valid s created) (hcalls : s.calls = []) (hlock : s.lock = none) :
    NoLeak P s created := by
  have hkept : ∀ x ∈ created, s.dead x = false →
      (∃ key, (key, x) ∈ s.held) ∨ ∃ e ∈ s.pool.entries, x ∈ P.connections (s.containers e.value) := by
    intro x hx hopen
    rcases h.kept x hx with hd | hin | ⟨k, hk, _⟩ | ⟨_, hheld | ⟨key, wait, c, hmem⟩⟩
    · rw [hopen] at hd
      cases hd
    · exact Or.inr hin
    · rw [hlock] at hk
      cases hk
    · exact Or.inl hheld
    · rw [hcalls] at hmem
      cases hmem
  refine ⟨hkept, ?_⟩
  intro hclosed hnobody x hx
  by_contra hopen
  rcases hkept x hx (by simpa using hopen) with ⟨key, hmem⟩ | ⟨e, he, hmem⟩
  · rw [hnobody] at hmem
    cases hmem
  · rw [h.shut hclosed e he] at hmem
    cases hmem

/-- In every run of calls made one at a time in which no open connection is dropped, a
pool of either class has lost none between two calls. -/
theorem no_leak (size : Option ℕ) (n : ℕ) :
    (∀ p : LRUConnectionPool κ (List ℕ) × List ℕ, (tidy dedicate size n).Reachable p →
      p.1.calls = [] → p.1.lock = none → NoLeak dedicate p.1 p.2) ∧
    (∀ p : LRUConnectionPool κ (Iterator ℕ) × List ℕ, (tidy shared size n).Reachable p →
      p.1.calls = [] → p.1.lock = none → NoLeak shared p.1 p.2) := by
  constructor
  · intro p hr hcalls hlock
    exact noLeak_of_kept (kept_reachable dedicate_lawful dedicate_closes size n p hr) hcalls hlock
  · intro p hr hcalls hlock
    exact noLeak_of_kept (kept_reachable shared_lawful shared_closes size n p hr) hcalls hlock

/-- Calls made one at a time, with a factory that makes fresh connections and callers
that release what they hold. -/
abbrev oneByOne (P : ContainerClass γ) (size : Option ℕ) (n : ℕ) :
    Lts.Spec (LRUConnectionPool κ γ × List ℕ) (Label κ) :=
  ((system P size n).withHistory recordCreated []).restrict fun l p =>
    oneCall l p.1 && fresh l p.1 p.2 && releasedOnce l p.1

/-- The connection of key 4 is obtained and released, key 5 kicks key 4 out, and the pool
is closed after the connection of key 5 has been released. -/
def tidyCalls : List (Label ℕ) :=
  let wait : Wait := ⟨true, none⟩
  [.getStart 4 wait, .lookup 4 wait, .create ⟨4, wait, 0, 1⟩ (.ok 10), .register ⟨4, wait, 0, 0⟩,
    .choose 4 wait 0, .inspect 4 wait 0 10, .releaseStart 4 10, .release 4 10, .put 4 0 10,
    .getStart 5 wait, .lookup 5 wait, .create ⟨5, wait, 1, 1⟩ (.ok 11), .register ⟨5, wait, 1, 0⟩,
    .choose 5 wait 1, .inspect 5 wait 1 11, .releaseStart 5 11, .release 5 11, .put 5 1 11, .close]

/-- The pool is closed while the connection of key 4 is checked out. -/
def releasedLate : List (Label ℕ) :=
  let wait : Wait := ⟨true, none⟩
  [.getStart 4 wait, .lookup 4 wait, .create ⟨4, wait, 0, 1⟩ (.ok 10), .register ⟨4, wait, 0, 0⟩,
    .choose 4 wait 0, .inspect 4 wait 0 10, .close, .releaseStart 4 10, .release 4 10]

/-- The factory fails when it is to make the second connection of key 4. -/
def failedHalfWay : List (Label ℕ) :=
  let wait : Wait := ⟨true, none⟩
  [.getStart 4 wait, .lookup 4 wait, .create ⟨4, wait, 0, 2⟩ (.ok 10),
    .create ⟨4, wait, 0, 1⟩ (.error createConnectionError), .close]

theorem no_leak_tidyCalls :
    let p := (tidy dedicate (some 1) 1).run tidyCalls (new dedicate (some 1) fun _ => false, [])
    let q := (tidy shared (some 1) 1).run tidyCalls (new shared (some 1) fun _ => false, [])
    p.2 = [11, 10] ∧ p.1.closed = true ∧ NoLeak dedicate p.1 p.2 ∧
      q.2 = [11, 10] ∧ q.1.closed = true ∧ NoLeak shared q.1 q.2 := by
  refine ⟨by decide, by decide, ?_, by decide, by decide, ?_⟩
  · exact (no_leak (some 1) 1).1 _ (reachable_history _ _ _ _ _ _ _) (by decide) (by decide)
  · exact (no_leak (some 1) 1).2 _ (reachable_history _ _ _ _ _ _ _) (by decide) (by decide)

/-- A dedicated pool that is closed does not close a connection released to it; either
pool forgets the connections it has made for a container when the factory fails. -/
theorem leaks :
    (¬ ∀ p : LRUConnectionPool ℕ (List ℕ) × List ℕ, (oneByOne dedicate (some 1) 1).Reachable p →
      p.1.calls = [] → p.1.lock = none → NoLeak dedicate p.1 p.2) ∧
    (¬ ∀ p : LRUConnectionPool ℕ (Iterator ℕ) × List ℕ, (oneByOne shared (some 1) 2).Reachable p →
      p.1.calls = [] → p.1.lock = none → NoLeak shared p.1 p.2) := by
  constructor
  · intro h
    have hlate := h _ (reachable_history recordCreated [] dedicate (some 1) 1 _ releasedLate)
      (by decide) (by decide)
    exact absurd (hlate.closed (by decide) (by decide) 10 (by decide)) (by decide)
  · intro h
    have hfailed := h _ (reachable_history recordCreated [] shared (some 1) 2 _ failedHalfWay)
      (by decide) (by decide)
    exact absurd (hfailed.closed (by decide) (by decide) 10 (by decide)) (by decide)

end Run

end LRUConnectionPool

end SummerRpc
