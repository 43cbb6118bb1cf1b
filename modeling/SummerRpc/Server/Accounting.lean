import Mathlib.Data.List.Range
import SummerRpc.Server.IdleScan

/-! # The server's account of its connections

`_accept_connection` counts a connection and puts it into the cache;
`_on_connection_close`, which runs once for each of them and at any time later, takes it
out of both. The cache would drop a live connection without a word if it were ever full.

* `Accounted`: the counter, the cache, the ids given and the callbacks that have run say
  the same;
* `Balanced`: what follows for the counter, the limit and the two operations on the cache;
* `connections_balanced`: in every state the server can reach while its ids do not wrap.
-/

namespace SummerRpc

namespace RpcServer

variable {cfg : ServerConfig} {s : RpcServer}

/-- The connections whose close callback has not run. -/
def liveConnections (s : RpcServer) : List ℕ :=
  (List.range s.connectionCount).filter fun n => !s.closeCallbackRun n

theorem mem_liveConnections {n : ℕ} :
    n ∈ s.liveConnections ↔ n < s.connectionCount ∧ s.closeCallbackRun n = false := by
  simp [liveConnections]

/-- The counter, the cache, the ids and the callbacks agree. -/
structure Accounted (cfg : ServerConfig) (s : RpcServer) : Prop where
  capacity : cfg.maxConnections ≤ s.connectionLruCache.maxSize
  ids : s.idGenerator = ⟨0, s.connectionCount, sysMaxint⟩
  id_eq : ∀ n < s.connectionCount, s.connectionId n = n + 1
  key_eq : ∀ e ∈ s.connectionLruCache.entries, e.key = e.value + 1
  fresh : ∀ n, s.connectionCount ≤ n → s.closeCallbackRun n = false
  live_iff : ∀ n, n ∈ s.liveConnections ↔ ∃ e ∈ s.connectionLruCache.entries, e.value = n
  count_eq : s.currentConnections = s.connectionLruCache.currentSize
  le_max : s.currentConnections ≤ cfg.maxConnections

namespace Accounted

/-- The id of the next connection is new. -/
theorem next_notMem (h : Accounted cfg s) :
    s.connectionLruCache.contains (s.connectionCount + 1) = false := by
  apply LRUCache.contains_eq_false.mpr
  apply LRUCache.find_none.mpr
  intro e he hhash
  have hkey : e.key = s.connectionCount + 1 := hash_nat_inj.mp hhash
  have hlive : e.value < s.connectionCount := by
    have hmem := (h.live_iff e.value).mpr ⟨e, he, rfl⟩
    exact (mem_liveConnections.mp hmem).1
  have hvalue := h.key_eq e he
  omega

/-- Below the limit the cache has room. -/
theorem room (h : Accounted cfg s) (hlt : s.currentConnections < cfg.maxConnections) :
    s.connectionLruCache.willBeKickedOut = none := by
  have hcap := h.capacity
  have hcount := h.count_eq
  rw [LRUCache.willBeKickedOut, if_pos (by omega)]

/-- A connection whose callback has not run is found under its id. -/
theorem find_live (h : Accounted cfg s) {n : ℕ} (hn : n ∈ s.liveConnections) :
    s.connectionLruCache.find (s.connectionId n) = some ⟨n + 1, n⟩ := by
  rcases (h.live_iff n).mp hn with ⟨e, he, hvalue⟩
  have hkey := h.key_eq e he
  have heq : e = ⟨n + 1, n⟩ := by
    cases e
    simp only at hkey hvalue
    rw [hkey, hvalue]
  rw [h.id_eq n (mem_liveConnections.mp hn).1]
  exact LRUCache.find_some.mpr ⟨heq ▸ he, rfl⟩

/-- The entries are the connections whose callback has not run. -/
theorem perm_live (h : Accounted cfg s) :
    (s.connectionLruCache.entries.map Entry.value).Perm s.liveConnections := by
  have hnodup : (s.connectionLruCache.entries.map Entry.value).Nodup := by
    apply s.connectionLruCache.nodup_entries.map_on
    intro d hd e he heq
    apply LRUCache.eq_of_hash hd he
    show PyHash.hash d.key = PyHash.hash e.key
    rw [h.key_eq d hd, h.key_eq e he, heq]
  refine (List.perm_ext_iff_of_nodup hnodup (List.nodup_range.filter _)).mpr fun n => ?_
  rw [List.mem_map]
  exact (h.live_iff n).symm

/-- What happens on the connections themselves is not accounted for. -/
theorem onConnections (h : Accounted cfg s) (connections : ℕ → Runner) (scheduledAt nextScan : ℤ) :
    Accounted cfg { s with
      connections := connections
      scheduledAt := scheduledAt
      nextScan := nextScan } :=
  ⟨h.capacity, h.ids, h.id_eq, h.key_eq, h.fresh, h.live_iff, h.count_eq, h.le_max⟩

end Accounted

/-! ## One step -/

theorem accounted_new (cfg : ServerConfig) (now : ℤ) : Accounted cfg (new cfg now) where
  capacity := by
    show cfg.maxConnections ≤ (LRUCache.new (some cfg.maxConnections) : LRUCache ℕ ℕ).maxSize
    unfold LRUCache.new
    cases cfg.maxConnections with
    | zero => exact Nat.zero_le _
    | succ n => exact Nat.le_max_left _ _
  ids := rfl
  id_eq := fun _ hn => absurd hn (Nat.not_lt_zero _)
  key_eq := fun _ he => absurd he List.not_mem_nil
  fresh := fun _ _ => rfl
  live_iff := by
    intro n
    constructor
    · intro hn
      exact absurd (mem_liveConnections.mp hn).1 (Nat.not_lt_zero _)
    · rintro ⟨e, he, _⟩
      exact absurd he List.not_mem_nil
  count_eq := rfl
  le_max := Nat.zero_le _

/-- What an accept does while the ids do not wrap. -/
theorem accept_eq (now : ℤ) (h : Accounted cfg s) (hids : s.connectionCount < sysMaxint) :
    s.accept cfg now =
      { s with
        currentConnections := s.currentConnections + 1
        idGenerator := ⟨0, s.connectionCount + 1, sysMaxint⟩
        connectionLruCache :=
          s.connectionLruCache.setItem (s.connectionCount + 1) s.connectionCount
        connections :=
          Function.update s.connections s.connectionCount (Runner.new cfg.runner now)
        connectionCount := s.connectionCount + 1
        connectionId :=
          Function.update s.connectionId s.connectionCount (s.connectionCount + 1) } := by
  have hnext : s.idGenerator.increase 1 =
      (s.connectionCount + 1, ⟨0, s.connectionCount + 1, sysMaxint⟩) := by
    rw [h.ids]
    exact AtomicInteger.increase_one_of_lt hids
  unfold accept
  rw [hnext]

/-- An accept adds its connection to the cache and drops none. -/
theorem entries_accept (now : ℤ) (h : Accounted cfg s) (hids : s.connectionCount < sysMaxint)
    (hlt : s.currentConnections < cfg.maxConnections) :
    (s.accept cfg now).connectionLruCache.entries =
      ⟨s.connectionCount + 1, s.connectionCount⟩ :: s.connectionLruCache.entries := by
  rw [accept_eq now h hids]
  exact LRUCache.entries_setItem_of_room h.next_notMem (h.room hlt)

theorem mem_liveConnections_accept (cfg : ServerConfig) (now : ℤ)
    (hnew : s.closeCallbackRun s.connectionCount = false) {n : ℕ} :
    n ∈ (s.accept cfg now).liveConnections ↔ n = s.connectionCount ∨ n ∈ s.liveConnections := by
  rw [mem_liveConnections, mem_liveConnections]
  show n < s.connectionCount + 1 ∧ s.closeCallbackRun n = false ↔ _
  constructor
  · rintro ⟨hn, hrun⟩
    rcases Nat.lt_succ_iff_lt_or_eq.mp hn with hold | heq
    · exact Or.inr ⟨hold, hrun⟩
    · exact Or.inl heq
  · rintro (rfl | ⟨hn, hrun⟩)
    · exact ⟨Nat.lt_succ_self _, hnew⟩
    · exact ⟨Nat.lt_succ_of_lt hn, hrun⟩

theorem accounted_accept (now : ℤ) (h : Accounted cfg s) (hids : s.connectionCount < sysMaxint)
    (hlt : s.currentConnections < cfg.maxConnections) : Accounted cfg (s.accept cfg now) := by
  have hentries := entries_accept now h hids hlt
  constructor
  · rw [accept_eq now h hids]
    exact h.capacity
  · rw [accept_eq now h hids]
  · rw [accept_eq now h hids]
    intro n hn
    show Function.update s.connectionId s.connectionCount (s.connectionCount + 1) n = n + 1
    rcases Nat.lt_succ_iff_lt_or_eq.mp hn with hold | rfl
    · rw [Function.update_of_ne (Nat.ne_of_lt hold)]
      exact h.id_eq n hold
    · exact Function.update_self _ _ _
  · rw [hentries]
    intro e he
    rcases List.mem_cons.mp he with rfl | hold
    · rfl
    · exact h.key_eq e hold
  · intro n hn
    exact h.fresh n (Nat.le_of_succ_le hn)
  · intro n
    rw [mem_liveConnections_accept cfg now (h.fresh _ (Nat.le_refl _)), h.live_iff n, hentries]
    simp only [List.mem_cons, exists_eq_or_imp, eq_comm]
  · show s.currentConnections + 1 = (s.accept cfg now).connectionLruCache.entries.length
    rw [hentries, List.length_cons, h.count_eq]
    rfl
  · exact hlt

/-- Looking a key up does not stop it from being deleted. -/
theorem delItem_touch {c : LRUCache ℕ ℕ} {k : ℕ} {e : Entry ℕ ℕ} (h : c.find k = some e) :
    (c.touch k).delItem k = some ((c.touch k).erase k) := by
  have hmem := LRUCache.find_some.mp h
  rw [LRUCache.delItem, if_pos]
  exact LRUCache.contains_iff.mpr ⟨e, LRUCache.mem_touch.mpr hmem.1, hmem.2⟩

/-- A close callback finds its entry and takes it out. -/
theorem onConnectionClose_eq (h : Accounted cfg s) {n : ℕ} (hn : n ∈ s.liveConnections) :
    s.onConnectionClose cfg n =
      { s with
        currentConnections := s.currentConnections - 1
        closeCallbackRun := Function.update s.closeCallbackRun n true
        connections :=
          Function.update s.connections n
            (Runner.update cfg.runner .onConnectionClose (s.connections n))
        connectionLruCache :=
          (s.connectionLruCache.touch (s.connectionId n)).erase (s.connectionId n) } := by
  have hfind := h.find_live hn
  have hget : s.connectionLruCache.getItem (s.connectionId n) =
      some (n, s.connectionLruCache.touch (s.connectionId n)) := by
    rw [LRUCache.getItem, hfind]
    rfl
  have hdel := delItem_touch hfind
  unfold onConnectionClose
  simp only [hget, onConnection, hdel, Option.getD_some]

theorem accounted_onConnectionClose (h : Accounted cfg s) {n : ℕ} (hn : n ∈ s.liveConnections) :
    Accounted cfg (s.onConnectionClose cfg n) := by
  have hfind := h.find_live hn
  have hid : s.connectionId n = n + 1 := h.id_eq n (mem_liveConnections.mp hn).1
  -- the entries that stay are those of the other connections
  have hmem : ∀ e, e ∈ ((s.connectionLruCache.touch (s.connectionId n)).erase
        (s.connectionId n)).entries ↔ e ∈ s.connectionLruCache.entries ∧ e.value ≠ n := by
    intro e
    rw [LRUCache.mem_erase, LRUCache.mem_touch]
    apply and_congr_right
    intro he
    have hhash : e.hash = PyHash.hash (s.connectionId n) ↔ e.key = s.connectionId n := hash_nat_inj
    have hkey := h.key_eq e he
    rw [Ne, hhash]
    omega
  have hsize : ((s.connectionLruCache.touch (s.connectionId n)).erase
      (s.connectionId n)).currentSize + 1 = s.connectionLruCache.currentSize := by
    have htouch : (s.connectionLruCache.touch (s.connectionId n)).find (s.connectionId n) =
        some ⟨n + 1, n⟩ := by
      have hold := LRUCache.find_some.mp hfind
      exact LRUCache.find_some.mpr ⟨LRUCache.mem_touch.mpr hold.1, hold.2⟩
    rw [LRUCache.currentSize_erase htouch, LRUCache.currentSize_touch]
  rw [onConnectionClose_eq h hn]
  constructor
  · exact h.capacity
  · exact h.ids
  · exact h.id_eq
  · intro e he
    exact h.key_eq e ((hmem e).mp he).1
  · intro m hm
    have hlt := (mem_liveConnections.mp hn).1
    rw [← h.fresh m hm]
    exact Function.update_of_ne (Nat.ne_of_gt (Nat.lt_of_lt_of_le hlt hm)) _ _
  · intro m
    rw [mem_liveConnections]
    show m < s.connectionCount ∧ Function.update s.closeCallbackRun n true m = false ↔
      ∃ e ∈ ((s.connectionLruCache.touch (s.connectionId n)).erase (s.connectionId n)).entries,
        e.value = m
    have hrest : (m < s.connectionCount ∧ Function.update s.closeCallbackRun n true m = false) ↔
        m ∈ s.liveConnections ∧ m ≠ n := by
      rw [mem_liveConnections]
      by_cases hmn : m = n
      · simp [hmn]
      · simp [hmn]
    rw [hrest, h.live_iff m]
    constructor
    · rintro ⟨⟨e, he, rfl⟩, hmn⟩
      exact ⟨e, (hmem e).mpr ⟨he, hmn⟩, rfl⟩
    · rintro ⟨e, he, rfl⟩
      exact ⟨⟨e, ((hmem e).mp he).1, rfl⟩, ((hmem e).mp he).2⟩
  · have hcount := h.count_eq
    show s.currentConnections - 1 =
      ((s.connectionLruCache.touch (s.connectionId n)).erase (s.connectionId n)).currentSize
    omega
  · exact Nat.le_trans (Nat.sub_le _ _) h.le_max

theorem closeEach_eq (cfg : ServerConfig) (items : List (ℕ × ℕ)) (s : RpcServer) :
    ∃ connections, closeEach cfg items s = { s with connections := connections } := by
  induction items generalizing s with
  | nil => exact ⟨s.connections, rfl⟩
  | cons item items ih => exact ih (s.onConnection cfg item.2 .closeInactive)

theorem accounted_scan (time : ℕ → ℤ) (h : Accounted cfg s) :
    Accounted cfg (s.closeInactiveConnections cfg time) := by
  rcases scanLoop_stops cfg time s.connectionLruCache.iteritems 0 s with ⟨idle, _, _, hstops⟩
  obtain ⟨connections, heq⟩ := closeEach_eq cfg idle s
  unfold closeInactiveConnections
  simp only [hstops.state, heq]
  exact h.onConnections connections _ _

/-- No connection is accepted a second time. -/
theorem connectionCount_le_update (cfg : ServerConfig) (l : Label) (s : RpcServer) :
    s.connectionCount ≤ (update cfg l s).connectionCount := by
  cases l with
  | accept now => exact Nat.le_succ _
  | connection n l => exact Nat.le_refl _
  | onConnectionClose n =>
      show s.connectionCount ≤ (s.onConnectionClose cfg n).connectionCount
      unfold onConnectionClose
      simp only
      split
      · exact Nat.le_refl _
      · exact Nat.le_refl _
  | closeInactiveConnections time => exact Nat.le_of_eq (connectionCount_scan cfg time s).symm

/-- A step keeps the account, unless it gives the id after the last one. -/
theorem accounted_step (l : Label) (h : Accounted cfg s) (hg : guard cfg l s)
    (hids : (update cfg l s).connectionCount ≤ sysMaxint) : Accounted cfg (update cfg l s) := by
  cases l with
  | accept now => exact accounted_accept now h hids hg
  | connection n l => exact h.onConnections _ _ _
  | onConnectionClose n =>
      exact accounted_onConnectionClose h (mem_liveConnections.mpr ⟨hg.1, hg.2.2⟩)
  | closeInactiveConnections time => exact accounted_scan time h

theorem accounted_reachable (cfg : ServerConfig) :
    ∀ s, (system cfg).Reachable s → s.connectionCount ≤ sysMaxint → Accounted cfg s := by
  apply Lts.Spec.invariant
  · rintro s ⟨now, rfl⟩ _
    exact accounted_new cfg now
  · intro l s hg ih hids
    have hold := Nat.le_trans (connectionCount_le_update cfg l s) hids
    exact accounted_step l (ih hold) hg hids

/-! ## The result -/

/-- The three counts are one, the limit holds, a connection that is accepted drops no
other one, and a close callback finds its own connection in the cache, twice. -/
structure Balanced (cfg : ServerConfig) (s : RpcServer) : Prop where
  size : s.currentConnections = s.connectionLruCache.currentSize
  live : s.currentConnections = s.liveConnections.length
  le_max : s.currentConnections ≤ cfg.maxConnections
  keeps : ∀ now, guard cfg (.accept now) s →
    s.connectionLruCache.lost (s.accept cfg now).connectionLruCache = []
  found : ∀ n ∈ s.liveConnections, ∃ cache,
    s.connectionLruCache.getItem (s.connectionId n) = some (n, cache) ∧
      (cache.delItem (s.connectionId n)).isSome = true

/-- In every state of a server that has accepted fewer than `sys.maxint` connections. -/
theorem connections_balanced (cfg : ServerConfig) :
    ∀ s, (system cfg).Reachable s → s.connectionCount < sysMaxint → Balanced cfg s := by
  intro s hr hids
  have h := accounted_reachable cfg s hr (Nat.le_of_lt hids)
  refine ⟨h.count_eq, ?_, h.le_max, ?_, ?_⟩
  · rw [h.count_eq, ← h.perm_live.length_eq, List.length_map]
    rfl
  · intro now hg
    rw [accept_eq now h hids]
    exact LRUCache.lost_setItem_of_room h.next_notMem (h.room hg)
  · intro n hn
    have hfind := h.find_live hn
    refine ⟨s.connectionLruCache.touch (s.connectionId n), ?_, ?_⟩
    · rw [LRUCache.getItem, hfind]
      rfl
    · rw [delItem_touch hfind]
      rfl

/-- A server with two connections, its limit. -/
theorem connections_balanced_two : Balanced idleConfig twoConnections :=
  connections_balanced idleConfig twoConnections reachable_twoConnections (by decide +kernel)

end RpcServer

end SummerRpc
