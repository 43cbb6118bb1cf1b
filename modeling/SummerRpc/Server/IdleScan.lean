import SummerRpc.Server.Answered
import SummerRpc.Server.RpcServer

/-! # The scan for idle connections

`_close_inactive_connections` goes through the cache from its least recently used
entry and stops at the first connection that is not idle. The cache orders the
connections by the time they were accepted: reads and writes change their timestamps,
not their places.

* `Stops`, `scanLoop_stops`: what the loop closes and where it stops;
* `Numbered`: the cache holds every connection once;
* `InOrder`: the order of the cache is right for the timestamps and the clock;
* `idle_reaped_iff`: exactly then the scan does what it is for.
-/

namespace SummerRpc

namespace RpcServer

variable {cfg : ServerConfig} {time : ℕ → ℤ} {s : RpcServer}

/-- The timestamp of a connection in the cache. -/
def timestampOf (s : RpcServer) (item : ℕ × ℕ) : ℤ := (s.connections item.2).timestamp

/-- The connection's stream is closed. -/
def closedOf (s : RpcServer) (item : ℕ × ℕ) : Bool := (s.connections item.2).closed

/-! ## Where the loop stops -/

/-- The connections of the list are found idle, one after the other. -/
def closeEach (cfg : ServerConfig) (items : List (ℕ × ℕ)) (s : RpcServer) : RpcServer :=
  items.foldl (fun s item => s.onConnection cfg item.2 .closeInactive) s

/-- Closing a connection changes no timestamp. -/
theorem timestampOf_close (cfg : ServerConfig) (n : ℕ) (s : RpcServer) (item : ℕ × ℕ) :
    (s.onConnection cfg n .closeInactive).timestampOf item = s.timestampOf item := by
  unfold timestampOf
  by_cases hn : item.2 = n
  · rw [hn, connections_onConnection_self]
    exact Runner.timestamp_notifyAll { s.connections n with closed := true }
  · rw [connections_onConnection_of_ne cfg _ s hn]

/-- What the loop does with the connections of a list, from reading `i` of the clock on: it
closes the ones of `idle`, each of which its reading finds idle, and takes the delay from
the one behind them. -/
structure Stops (cfg : ServerConfig) (time : ℕ → ℤ) (s : RpcServer) (i : ℕ)
    (idle rest : List (ℕ × ℕ)) (res : RpcServer × ℤ × ℕ) : Prop where
  state : res.1 = closeEach cfg idle s
  found : ∀ j item, idle[j]? = some item → s.timestampOf item + cfg.maxIdleTime ≤ time (i + j)
  first : ∀ item, rest.head? = some item →
    time (i + idle.length) < s.timestampOf item + cfg.maxIdleTime ∧
      res.2 = (max (s.timestampOf item + cfg.maxIdleTime - time (i + idle.length + 1)) 0,
        i + idle.length + 2)

theorem scanLoop_stops (cfg : ServerConfig) (time : ℕ → ℤ) (items : List (ℕ × ℕ)) (i : ℕ)
    (s : RpcServer) :
    ∃ idle rest, items = idle ++ rest ∧
      Stops cfg time s i idle rest (scanLoop cfg time items i s) := by
  induction items generalizing i s with
  | nil => exact ⟨[], [], rfl, rfl, by simp, by simp⟩
  | cons item items ih =>
      unfold scanLoop
      by_cases hactive : time i - (s.connections item.2).timestamp < cfg.maxIdleTime
      · rw [if_pos hactive]
        refine ⟨[], item :: items, rfl, rfl, by simp, ?_⟩
        rintro first ⟨⟩
        have hdue : time i < s.timestampOf item + cfg.maxIdleTime := by
          unfold timestampOf
          omega
        exact ⟨hdue, rfl⟩
      · rw [if_neg hactive]
        rcases ih (i + 1) (s.onConnection cfg item.2 .closeInactive) with
          ⟨idle, rest, rfl, hstate, hfound, hfirst⟩
        have hlen : i + (item :: idle).length = i + 1 + idle.length := by
          rw [List.length_cons]
          omega
        refine ⟨item :: idle, rest, rfl, hstate, ?_, ?_⟩
        · intro j other hother
          cases j with
          | zero =>
              cases hother
              unfold timestampOf
              show _ ≤ time i
              omega
          | succ j =>
              have hj := hfound j other hother
              rw [timestampOf_close] at hj
              rwa [show i + (j + 1) = i + 1 + j by omega]
        · intro first hhead
          have hstop := hfirst first hhead
          rw [timestampOf_close] at hstop
          rwa [hlen]

theorem closeEach_spec (cfg : ServerConfig) (items : List (ℕ × ℕ)) (s : RpcServer) :
    (closeEach cfg items s).connectionLruCache = s.connectionLruCache ∧
      (closeEach cfg items s).connectionCount = s.connectionCount ∧
      (∀ item, (closeEach cfg items s).timestampOf item = s.timestampOf item) ∧
      ∀ item, (closeEach cfg items s).closedOf item = true ↔
        s.closedOf item = true ∨ ∃ closed ∈ items, closed.2 = item.2 := by
  induction items generalizing s with
  | nil => exact ⟨rfl, rfl, fun _ => rfl, fun _ => by simp [closeEach]⟩
  | cons first items ih =>
      rcases ih (s.onConnection cfg first.2 .closeInactive) with
        ⟨hcache, hcount, htime, hclosed⟩
      refine ⟨hcache, hcount, ?_, ?_⟩
      · intro item
        exact (htime item).trans (timestampOf_close cfg first.2 s item)
      · intro item
        have hstep : (s.onConnection cfg first.2 .closeInactive).closedOf item = true ↔
            s.closedOf item = true ∨ first.2 = item.2 := by
          unfold closedOf
          by_cases hn : item.2 = first.2
          · rw [hn, connections_onConnection_self]
            have hclose := (Runner.notifyAll_frame
              { s.connections first.2 with closed := true }).1
            exact ⟨fun _ => Or.inr rfl, fun _ => hclose⟩
          · rw [connections_onConnection_of_ne cfg _ s hn]
            exact ⟨Or.inl, fun h => h.resolve_right fun heq => hn heq.symm⟩
        show (closeEach cfg items (s.onConnection cfg first.2 .closeInactive)).closedOf item = true ↔ _
        rw [hclosed item, hstep, List.exists_mem_cons_iff, or_assoc]

theorem cache_scan (cfg : ServerConfig) (time : ℕ → ℤ) (s : RpcServer) :
    (s.closeInactiveConnections cfg time).connectionLruCache = s.connectionLruCache := by
  rcases scanLoop_stops cfg time s.connectionLruCache.iteritems 0 s with ⟨idle, _, _, hstops⟩
  exact (congrArg connectionLruCache hstops.state).trans (closeEach_spec cfg idle s).1

theorem connectionCount_scan (cfg : ServerConfig) (time : ℕ → ℤ) (s : RpcServer) :
    (s.closeInactiveConnections cfg time).connectionCount = s.connectionCount := by
  rcases scanLoop_stops cfg time s.connectionLruCache.iteritems 0 s with ⟨idle, _, _, hstops⟩
  exact (congrArg connectionCount hstops.state).trans (closeEach_spec cfg idle s).2.1

/-! ## The cache holds every connection once -/

/-- The entries of the cache are different connections. -/
structure Numbered (s : RpcServer) : Prop where
  lt : ∀ e ∈ s.connectionLruCache.entries, e.value < s.connectionCount
  inj : ∀ d ∈ s.connectionLruCache.entries, ∀ e ∈ s.connectionLruCache.entries,
    d.value = e.value → d = e

/-- Entries that stay where they are. -/
theorem Numbered.congr {t : RpcServer} (h : Numbered s)
    (hcache : ∀ e ∈ t.connectionLruCache.entries, e ∈ s.connectionLruCache.entries)
    (hcount : t.connectionCount = s.connectionCount) : Numbered t := by
  constructor
  · intro e he
    rw [hcount]
    exact h.lt e (hcache e he)
  · intro d hd e he
    exact h.inj d (hcache d hd) e (hcache e he)

theorem numbered_accept (cfg : ServerConfig) (now : ℤ) (h : Numbered s) :
    Numbered (s.accept cfg now) := by
  have hmem : ∀ e ∈ (s.accept cfg now).connectionLruCache.entries,
      e.value = s.connectionCount ∨ e ∈ s.connectionLruCache.entries := by
    intro e he
    rcases LRUCache.mem_setItem he with rfl | hold
    · exact Or.inl rfl
    · exact Or.inr hold
  constructor
  · intro e he
    show e.value < s.connectionCount + 1
    rcases hmem e he with hnew | hold
    · omega
    · have hlt := h.lt e hold
      omega
  · intro d hd e he heq
    rcases LRUCache.mem_setItem hd with rfl | hdold
    · rcases LRUCache.mem_setItem he with rfl | heold
      · rfl
      · have hlt := h.lt e heold
        have hcount : s.connectionCount = e.value := heq
        omega
    · rcases LRUCache.mem_setItem he with rfl | heold
      · have hlt := h.lt d hdold
        have hcount : d.value = s.connectionCount := heq
        omega
      · exact h.inj d hdold e heold heq

theorem numbered_onConnectionClose (cfg : ServerConfig) (n : ℕ) (h : Numbered s) :
    Numbered (s.onConnectionClose cfg n) := by
  unfold onConnectionClose
  simp only
  split
  · exact h.congr (fun _ he => he) rfl
  · rename_i m cache hget
    rcases LRUCache.getItem_some hget with ⟨_, _, _, _, rfl⟩
    refine h.congr ?_ rfl
    intro e he
    -- touched, and deleted if it is there
    exact LRUCache.mem_touch.mp (LRUCache.mem_delItem he)

theorem numbered_step (cfg : ServerConfig) (l : Label) (h : Numbered s) :
    Numbered (update cfg l s) := by
  cases l with
  | accept now => exact numbered_accept cfg now h
  | connection n l => exact h.congr (fun _ he => he) rfl
  | onConnectionClose n => exact numbered_onConnectionClose cfg n h
  | closeInactiveConnections time =>
      refine h.congr ?_ (connectionCount_scan cfg time s)
      rw [show update cfg _ s = s.closeInactiveConnections cfg time from rfl, cache_scan]
      exact fun _ he => he

theorem numbered_reachable (cfg : ServerConfig) : ∀ s, (system cfg).Reachable s → Numbered s := by
  apply Lts.Spec.invariant
  · intro s hs
    rcases hs with ⟨now, rfl⟩
    constructor
    · intro e he
      cases he
    · intro d hd
      cases hd
  · intro l s _ h
    exact numbered_step cfg l h

/-! ## What a scan is for -/

/-- What a scan that started at `start` is for: the connections that were idle then are
closed, and the next scan is due before any connection left becomes idle, or at once
when that has happened already. -/
structure ScanDone (cfg : ServerConfig) (start : ℤ) (s t : RpcServer) : Prop where
  idle : ∀ item ∈ s.connectionLruCache.iteritems,
    s.timestampOf item + cfg.maxIdleTime ≤ start → t.closedOf item = true
  next : ∀ item ∈ t.connectionLruCache.iteritems, t.closedOf item = false →
    t.nextScan ≤ max t.scheduledAt (t.timestampOf item + cfg.maxIdleTime)

/-- The order of the cache, against the timestamps and the readings of the clock, of which the
scan makes number `k` for the connection at place `k`. -/
structure InOrder (cfg : ServerConfig) (start : ℤ) (time : ℕ → ℤ) (s : RpcServer) : Prop where
  /-- up to an open connection that was idle at the start, all are found idle -/
  idle : ∀ (k p : ℕ) other item, k ≤ p → s.connectionLruCache.iteritems[k]? = some other →
    s.connectionLruCache.iteritems[p]? = some item → s.closedOf item = false →
    s.timestampOf item + cfg.maxIdleTime ≤ start → s.timestampOf other + cfg.maxIdleTime ≤ time k
  /-- behind the first active connection, unless it is due at the next reading, every open one
  has a later timestamp, by what the clock gains until `call_later` reads it -/
  later : ∀ (k p : ℕ) first item, k ≤ p → s.connectionLruCache.iteritems[k]? = some first →
    s.connectionLruCache.iteritems[p]? = some item → s.closedOf item = false →
    (∀ j other, j < k → s.connectionLruCache.iteritems[j]? = some other →
      s.timestampOf other + cfg.maxIdleTime ≤ time j) →
    time k < s.timestampOf first + cfg.maxIdleTime →
    s.timestampOf first + cfg.maxIdleTime ≤ time (k + 1) ∨
      s.timestampOf first + (time (k + 2) - time (k + 1)) ≤ s.timestampOf item

/-- A scan closes the connections it finds idle. -/
theorem closed_scan (h : Numbered s) (time : ℕ → ℤ) {idle rest : List (ℕ × ℕ)}
    (hitems : s.connectionLruCache.iteritems = idle ++ rest)
    (hstops : Stops cfg time s 0 idle rest (scanLoop cfg time s.connectionLruCache.iteritems 0 s))
    {item : ℕ × ℕ} (hitem : item ∈ s.connectionLruCache.iteritems) :
    (s.closeInactiveConnections cfg time).closedOf item = true ↔
      s.closedOf item = true ∨ item ∈ idle := by
  have hscan : (s.closeInactiveConnections cfg time).closedOf item =
      (closeEach cfg idle s).closedOf item := by
    rw [← hstops.state]
    rfl
  rw [hscan, (closeEach_spec cfg idle s).2.2.2 item]
  apply or_congr_right
  constructor
  · rintro ⟨other, hother, heq⟩
    have hmem : other ∈ s.connectionLruCache.iteritems := by
      rw [hitems]
      exact List.mem_append_left _ hother
    -- one entry a connection
    have hsame := h.inj ⟨other.1, other.2⟩ (LRUCache.mem_iteritems.mp hmem) ⟨item.1, item.2⟩
      (LRUCache.mem_iteritems.mp hitem) heq
    have heq' : other = item := Prod.ext (congrArg Entry.key hsame) heq
    rwa [← heq']
  · intro hmem
    exact ⟨item, hmem, rfl⟩

theorem timestamp_scan (cfg : ServerConfig) (time : ℕ → ℤ) (s : RpcServer) (item : ℕ × ℕ) :
    (s.closeInactiveConnections cfg time).timestampOf item = s.timestampOf item := by
  rcases scanLoop_stops cfg time s.connectionLruCache.iteritems 0 s with ⟨idle, _, _, hstops⟩
  have hscan : (s.closeInactiveConnections cfg time).timestampOf item =
      (closeEach cfg idle s).timestampOf item := by
    rw [← hstops.state]
    rfl
  exact hscan.trans ((closeEach_spec cfg idle s).2.2.1 item)

/-- The next scan is scheduled by the first connection that is not found idle. -/
theorem nextScan_scan {idle rest : List (ℕ × ℕ)} {first : ℕ × ℕ}
    (hstops : Stops cfg time s 0 idle rest (scanLoop cfg time s.connectionLruCache.iteritems 0 s))
    (hfirst : rest.head? = some first) :
    (s.closeInactiveConnections cfg time).scheduledAt = time (idle.length + 2) ∧
      (s.closeInactiveConnections cfg time).nextScan = time (idle.length + 2) +
        max (s.timestampOf first + cfg.maxIdleTime - time (idle.length + 1)) 0 := by
  have hres := (hstops.first first hfirst).2
  rw [Nat.zero_add] at hres
  refine ⟨congrArg (fun res : ℤ × ℕ => time res.2) hres, ?_⟩
  exact congrArg (fun res : ℤ × ℕ => time res.2 + res.1) hres

/-- The place of a connection the scan leaves, and the one it stopped at. -/
theorem place_of_rest (idle : List (ℕ × ℕ)) {rest : List (ℕ × ℕ)} {item : ℕ × ℕ}
    (hrest : item ∈ rest) :
    ∃ p first, idle.length ≤ p ∧ (idle ++ rest)[p]? = some item ∧
      (idle ++ rest)[idle.length]? = some first ∧ rest.head? = some first := by
  rcases List.getElem?_of_mem hrest with ⟨n, hn⟩
  cases rest with
  | nil => cases hrest
  | cons first rest =>
      refine ⟨idle.length + n, first, Nat.le_add_right _ _, ?_, ?_, rfl⟩
      · rw [List.getElem?_append_right (Nat.le_add_right _ _), Nat.add_sub_cancel_left]
        exact hn
      · rw [List.getElem?_append_right (Nat.le_refl _), Nat.sub_self]
        rfl

/-- From the connection the scan stops at on, it leaves every connection as it was. -/
theorem mem_rest_of_place {idle rest : List (ℕ × ℕ)} {p : ℕ} {item : ℕ × ℕ}
    (hplace : (idle ++ rest)[p]? = some item) (hle : idle.length ≤ p) : item ∈ rest := by
  rw [List.getElem?_append_right hle] at hplace
  exact List.mem_of_getElem? hplace

/-- The connections before that one are found idle. -/
theorem found_of_place {idle rest : List (ℕ × ℕ)}
    (hitems : s.connectionLruCache.iteritems = idle ++ rest)
    (hstops : Stops cfg time s 0 idle rest (scanLoop cfg time s.connectionLruCache.iteritems 0 s))
    (j : ℕ) (other : ℕ × ℕ) (hj : j < idle.length)
    (hother : s.connectionLruCache.iteritems[j]? = some other) :
    s.timestampOf other + cfg.maxIdleTime ≤ time j := by
  rw [hitems, List.getElem?_append_left hj] at hother
  have hreading := hstops.found j other hother
  rwa [Nat.zero_add] at hreading

/-- The ones from there on are left as they were. -/
theorem closed_rest (h : Numbered s) {idle rest : List (ℕ × ℕ)}
    (hitems : s.connectionLruCache.iteritems = idle ++ rest)
    (hstops : Stops cfg time s 0 idle rest (scanLoop cfg time s.connectionLruCache.iteritems 0 s))
    {item : ℕ × ℕ} (hmem : item ∈ rest) :
    item ∈ s.connectionLruCache.iteritems ∧
      ((s.closeInactiveConnections cfg time).closedOf item = true ↔ s.closedOf item = true) := by
  have hitem : item ∈ s.connectionLruCache.iteritems := by
    rw [hitems]
    exact List.mem_append_right _ hmem
  have hnodup := s.connectionLruCache.nodup_iteritems
  rw [hitems] at hnodup
  refine ⟨hitem, (closed_scan h time hitems hstops hitem).trans (or_iff_left ?_)⟩
  exact fun hidle => List.disjoint_of_nodup_append hnodup hidle hmem

theorem inOrder_of_scanDone (h : Numbered s) {start : ℤ}
    (hdone : ScanDone cfg start s (s.closeInactiveConnections cfg time)) :
    InOrder cfg start time s := by
  rcases scanLoop_stops cfg time s.connectionLruCache.iteritems 0 s with
    ⟨idle, rest, hitems, hstops⟩
  constructor
  · intro k p other item hkp hother hitem hopen hstart
    by_contra hactive
    have hk : idle.length ≤ k := by
      by_contra hlt
      exact hactive (found_of_place hitems hstops k other (by omega) hother)
    rw [hitems] at hitem
    have hleft := closed_rest h hitems hstops (mem_rest_of_place hitem (hk.trans hkp))
    have hreaped := hleft.2.mp (hdone.idle item hleft.1 hstart)
    rw [hopen] at hreaped
    cases hreaped
  · intro k p first item hkp hfirst hitem hopen hbefore hactive
    have hk : k = idle.length := by
      rcases Nat.lt_trichotomy k idle.length with hlt | heq | hgt
      · have hidle := found_of_place hitems hstops k first hlt hfirst
        omega
      · exact heq
      · -- a connection before it is active as well
        rw [hitems] at hfirst
        rcases place_of_rest idle (mem_rest_of_place hfirst (by omega)) with
          ⟨_, stopped, _, _, hstopped, hhead⟩
        have hidle := hbefore idle.length stopped hgt (by rw [hitems]; exact hstopped)
        have hnot := (hstops.first stopped hhead).1
        rw [Nat.zero_add] at hnot
        omega
    subst hk
    rw [hitems] at hfirst hitem
    have hhead : rest.head? = some first := by
      rw [List.getElem?_append_right (Nat.le_refl _), Nat.sub_self] at hfirst
      rw [List.head?_eq_getElem?]
      exact hfirst
    have hleft := closed_rest h hitems hstops (mem_rest_of_place hitem hkp)
    have hstill : (s.closeInactiveConnections cfg time).closedOf item = false := by
      rw [← Bool.not_eq_true, hleft.2, hopen]
      exact Bool.false_ne_true
    have hdue := hdone.next item (by rw [cache_scan]; exact hleft.1) hstill
    rw [(nextScan_scan hstops hhead).1, (nextScan_scan hstops hhead).2, timestamp_scan] at hdue
    omega

/-- What the order says of a connection the scan leaves open. -/
theorem rest_of_inOrder {start : ℤ} (horder : InOrder cfg start time s) {idle rest : List (ℕ × ℕ)}
    (hitems : s.connectionLruCache.iteritems = idle ++ rest)
    (hstops : Stops cfg time s 0 idle rest (scanLoop cfg time s.connectionLruCache.iteritems 0 s))
    {item : ℕ × ℕ} (hmem : item ∈ rest) (hopen : s.closedOf item = false) :
    start < s.timestampOf item + cfg.maxIdleTime ∧
      (s.closeInactiveConnections cfg time).nextScan ≤
        max (s.closeInactiveConnections cfg time).scheduledAt
          (s.timestampOf item + cfg.maxIdleTime) := by
  rcases place_of_rest idle hmem with ⟨p, first, hle, hplace, hfirst, hhead⟩
  rw [← hitems] at hplace hfirst
  have hactive := (hstops.first first hhead).1
  rw [Nat.zero_add] at hactive
  have hlater := horder.later idle.length p first item hle hfirst hplace hopen
    (found_of_place hitems hstops) hactive
  constructor
  · by_contra hstart
    have hidle := horder.idle idle.length p first item hle hfirst hplace hopen (by omega)
    omega
  · rw [(nextScan_scan hstops hhead).1, (nextScan_scan hstops hhead).2]
    omega

theorem scanDone_of_inOrder (h : Numbered s) {start : ℤ} (horder : InOrder cfg start time s) :
    ScanDone cfg start s (s.closeInactiveConnections cfg time) := by
  rcases scanLoop_stops cfg time s.connectionLruCache.iteritems 0 s with
    ⟨idle, rest, hitems, hstops⟩
  have hsplit : ∀ item ∈ s.connectionLruCache.iteritems, item ∈ idle ∨ item ∈ rest := by
    intro item hitem
    rwa [hitems, List.mem_append] at hitem
  constructor
  · intro item hitem hstart
    rcases hsplit item hitem with hidle | hmem
    · exact (closed_scan h time hitems hstops hitem).mpr (Or.inr hidle)
    · refine (closed_rest h hitems hstops hmem).2.mpr ?_
      by_contra hopen
      have hrest := rest_of_inOrder horder hitems hstops hmem (Bool.eq_false_of_not_eq_true hopen)
      have hlate := hrest.1
      omega
  · intro item hitem hopen
    rw [cache_scan] at hitem
    rw [timestamp_scan]
    rcases hsplit item hitem with hidle | hmem
    · have hclosed := (closed_scan h time hitems hstops hitem).mpr (Or.inr hidle)
      rw [hopen] at hclosed
      cases hclosed
    · refine (rest_of_inOrder horder hitems hstops hmem ?_).2
      rw [← Bool.not_eq_true, ← (closed_rest h hitems hstops hmem).2, hopen]
      exact Bool.false_ne_true

/-- What the loop relies on: with the timestamps in the order of the cache, and while the clock
stands still, it may stop at the first active connection. -/
theorem inOrder_of_sorted {start : ℤ} (hclock : ∀ j, time j = start)
    (hsorted : s.connectionLruCache.iteritems.Pairwise
      fun a b => s.timestampOf a ≤ s.timestampOf b) :
    InOrder cfg start time s := by
  have hle : ∀ (k p : ℕ) first item, k ≤ p → s.connectionLruCache.iteritems[k]? = some first →
      s.connectionLruCache.iteritems[p]? = some item →
      s.timestampOf first ≤ s.timestampOf item := by
    intro k p first item hkp hfirst hitem
    rcases Nat.lt_or_eq_of_le hkp with hlt | rfl
    · rcases List.getElem?_eq_some_iff.mp hfirst with ⟨hk, rfl⟩
      rcases List.getElem?_eq_some_iff.mp hitem with ⟨hp, rfl⟩
      exact List.pairwise_iff_getElem.mp hsorted k p hk hp hlt
    · rw [hfirst] at hitem
      cases hitem
      exact Int.le_refl _
  constructor
  · intro k p other item hkp hother hitem _ hstart
    have hbefore := hle k p other item hkp hother hitem
    rw [hclock k]
    omega
  · intro k p first item hkp hfirst hitem _ _ _
    right
    have hbefore := hle k p first item hkp hfirst hitem
    rw [hclock (k + 2), hclock (k + 1)]
    omega

/-! ## Two connections -/

/-- A server that allows ten ticks without traffic. -/
def idleConfig : ServerConfig where
  runner := (Runner.heartbeatKind (.pickle Runner.heartbeatPickle)).config
  maxConnections := 2
  maxIdleTime := 10

/-- Two connections, accepted at time 0. -/
def twoConnections : RpcServer :=
  update idleConfig (.accept 0) (update idleConfig (.accept 0) (new idleConfig 0))

/-- The first of them sends a request, which is read at time 5. -/
def firstBusy : RpcServer :=
  update idleConfig (.connection 0 (.readDone none 5))
    (update idleConfig (.connection 0 (.arrive Runner.heartbeatPacket)) twoConnections)

theorem reachable_twoConnections : (system idleConfig).Reachable twoConnections := by
  have hnew : (system idleConfig).Reachable (new idleConfig 0) := Lts.Spec.Reachable.init ⟨0, rfl⟩
  have hone := Lts.Spec.Reachable.step (Label.accept 0) hnew Nat.zero_lt_two
  exact Lts.Spec.Reachable.step (Label.accept 0) hone Nat.one_lt_two

theorem reachable_firstBusy : (system idleConfig).Reachable firstBusy := by
  have hopen : (twoConnections.connections 0).closed = false := by decide +kernel
  have harrived := Lts.Spec.Reachable.step
    (Label.connection 0 (.arrive Runner.heartbeatPacket)) reachable_twoConnections
    ⟨by decide +kernel, rfl, hopen⟩
  refine Lts.Spec.Reachable.step (Label.connection 0 (.readDone none 5)) harrived
    ⟨by decide +kernel, rfl, ?_, ?_⟩
  · decide +kernel
  · decide +kernel

end RpcServer

end SummerRpc
