import SummerRpc.Registry.ZookeeperRegistry

/-! # Children that are not well formed

The loop of `ZookeeperRegistry._real_discovery` over children whose names may be any bytes.

* `wellFormedEntry`: the entry of a well-formed child, by its URL alone;
* `Decimal`: a child that is well formed or skipped;
* `discoverLoop_ok`: what the loop collects when nothing stops it;
* `one_bad_child_iff`: the cache has the entries of the well-formed children, and no others,
  just when all children are well formed or skipped.
-/

namespace SummerRpc

namespace ZookeeperRegistry

/-- The entry of a child with a serializer and a netloc `host:port`, the port in decimal. -/
def wellFormedEntry (child : List UInt8) : Option (ServiceKey × Remote) :=
  match urlparse (unquote child) with
  | .error _ => none
  | .ok url =>
    match MultiMap.get (bytes "serializer") (parseQuery url.query), splitOnce 58 url.netloc with
    | serializer :: _, some (host, port) =>
      if isdigit port then
        some ((url.scheme, url.path, serializer), (host, (digitsValue port : ℤ)))
      else none
    | _, _ => none

/-- The brackets in the netloc of the child are paired, and the port, if the child has a
serializer and a port, is a decimal number. -/
def Decimal (child : List UInt8) : Prop :=
  ∃ url, urlparse (unquote child) = .ok url ∧ ∀ serializer serializers host port,
    MultiMap.get (bytes "serializer") (parseQuery url.query) = serializer :: serializers →
    splitOnce 58 url.netloc = some (host, port) → isdigit port = true

/-- What the loop adds to the cache for a child, if it can read it. -/
def entryRead (child : List UInt8) : Option (ServiceKey × Remote) := (readChild child).toOption.join

/-- The discovery finishes, and the cache has the entries of the well-formed children: under
each key a list of them, in the order of the children. -/
def SkipsMalformed (registry : ZookeeperRegistry) (children : List (List UInt8)) : Prop :=
  (registry.realDiscovery children).1 = .ok () ∧ ∀ key,
    MultiMap.get key (registry.realDiscovery children).2.localCache =
      ((children.filterMap wellFormedEntry).filter fun entry => entry.1 = key).map Prod.snd

/-! ## One child -/

/-- Well-formed children are read, and the skipped ones are skipped. -/
theorem readChild_of_decimal {child : List UInt8} (h : Decimal child) :
    readChild child = .ok (wellFormedEntry child) := by
  obtain ⟨url, hurl, hport⟩ := h
  unfold readChild wellFormedEntry
  rw [hurl]
  change readUrl url = _
  unfold readUrl
  cases hserializer : MultiMap.get (bytes "serializer") (parseQuery url.query) with
  | nil =>
      simp only [hserializer]
      rfl
  | cons serializer serializers =>
      cases hnetloc : splitOnce 58 url.netloc with
      | none =>
          simp only [hserializer, hnetloc]
          rfl
      | some pair =>
          have hdigits := hport _ _ _ _ hserializer hnetloc
          simp only [hserializer, hnetloc, intLiteral_isdigit hdigits, hdigits, if_true]
          rfl

/-- Of any other child there is no entry, but the loop is stopped by it or reads one. -/
theorem readChild_of_not_decimal {child : List UInt8} (h : ¬ Decimal child) :
    wellFormedEntry child = none ∧
      (¬ Readable child ∨ ∃ entry, readChild child = .ok (some entry)) := by
  cases hurl : urlparse (unquote child) with
  | error ex =>
      refine ⟨by rw [wellFormedEntry, hurl], Or.inl ?_⟩
      rintro ⟨read, hread⟩
      rw [readChild, hurl] at hread
      cases hread
  | ok url =>
      have hbad : ∃ serializer serializers host port,
          MultiMap.get (bytes "serializer") (parseQuery url.query) = serializer :: serializers ∧
          splitOnce 58 url.netloc = some (host, port) ∧ isdigit port = false := by
        by_contra hnone
        refine h ⟨url, hurl, fun serializer serializers host port hserializer hnetloc => ?_⟩
        cases hdigits : isdigit port with
        | true => rfl
        | false =>
            exact absurd ⟨serializer, serializers, host, port, hserializer, hnetloc, hdigits⟩ hnone
      obtain ⟨serializer, serializers, host, port, hserializer, hnetloc, hdigits⟩ := hbad
      have hread : readChild child = (intLiteral port).map fun number =>
          some ((url.scheme, url.path, serializer), (host, number)) := by
        rw [readChild, hurl]
        change readUrl url = _
        unfold readUrl
        simp only [hserializer, hnetloc]
        cases intLiteral port <;> rfl
      refine ⟨?_, ?_⟩
      · unfold wellFormedEntry
        simp only [hurl, hserializer, hnetloc, hdigits, Bool.false_eq_true, if_false]
      · cases hport : intLiteral port with
        | error ex =>
            left
            rintro ⟨read, hok⟩
            rw [hread, hport] at hok
            cases hok
        | ok number =>
            right
            rw [hread, hport]
            exact ⟨_, rfl⟩

/-! ## All children -/

/-- The loop is done if and only if every child is read, and has collected what was read. -/
theorem discoverLoop_ok (start tempCache : MultiMap ServiceKey Remote)
    (children : List (List UInt8)) :
    discoverLoop start children = .ok tempCache ↔ (∀ child ∈ children, Readable child) ∧
      tempCache = MultiMap.addAll start (children.filterMap entryRead) := by
  induction children generalizing start with
  | nil =>
      rw [discoverLoop, Except.ok.injEq, eq_comm]
      exact (and_iff_right fun _ h => absurd h List.not_mem_nil).symm
  | cons child children ih =>
      cases hread : readChild child with
      | error ex =>
          refine iff_of_false ?_ ?_
          · rw [discoverLoop, hread]
            intro heq
            cases heq
          · rintro ⟨hall, _⟩
            obtain ⟨read, hok⟩ := hall child List.mem_cons_self
            rw [hread] at hok
            cases hok
      | ok read =>
          have hentry : entryRead child = read := by rw [entryRead, hread]; rfl
          have hadd : MultiMap.addAll start ((child :: children).filterMap entryRead) =
              MultiMap.addAll (MultiMap.addAll start read.toList)
                (children.filterMap entryRead) := by
            rw [List.filterMap_cons, hentry]
            cases read <;> rfl
          rw [discoverLoop_readable hread, ih, hadd, List.forall_mem_cons,
            and_iff_right (show Readable child from ⟨read, hread⟩)]

/-- A discovery that finishes has done the loop. -/
theorem loop_of_done {registry : ZookeeperRegistry} {children : List (List UInt8)}
    (h : (registry.realDiscovery children).1 = .ok ()) :
    ∃ tempCache, discoverLoop [] children = .ok tempCache := by
  unfold realDiscovery at h
  split at h
  · exact ⟨_, by assumption⟩
  · cases h

/-- Where what `p` counts is among what `q` counts, and both count the same, they are the
same. -/
theorem of_countP_eq {α : Type} {p q : α → Bool} {l : List α} (himp : ∀ x, p x → q x)
    (heq : l.countP p = l.countP q) : ∀ x ∈ l, q x → p x := by
  intro x hx hq
  by_contra hp
  obtain ⟨front, back, rfl⟩ := List.append_of_mem hx
  have hfront := List.countP_mono_left (l := front) fun y _ => himp y
  have hback := List.countP_mono_left (l := back) fun y _ => himp y
  rw [List.countP_append, List.countP_append, List.countP_cons_of_pos hq,
    List.countP_cons_of_neg hp] at heq
  omega

/-- How many values the entries of some children have under a key. -/
theorem length_values (entryOf : List UInt8 → Option (ServiceKey × Remote)) (key : ServiceKey)
    (children : List (List UInt8)) :
    (((children.filterMap entryOf).filter fun entry => entry.1 = key).map Prod.snd).length =
      children.countP fun child => (entryOf child).any fun entry => entry.1 = key := by
  rw [List.length_map, ← List.countP_eq_length_filter, List.countP_filterMap]
  refine List.countP_congr fun child _ => ?_
  cases entryOf child <;> rfl

/-- The discovery finishes with the entries of the well-formed children, under each key in the
order of the children, if and only if in every child the brackets of the netloc are paired
and the port, where there is a serializer and a port, is a decimal number. -/
theorem one_bad_child_iff (registry : ZookeeperRegistry) (children : List (List UInt8)) :
    SkipsMalformed registry children ↔ ∀ child ∈ children, Decimal child := by
  constructor
  · rintro ⟨hdone, hcache⟩
    obtain ⟨tempCache, hok⟩ := loop_of_done hdone
    have hlocal : (registry.realDiscovery children).2.localCache = tempCache := by
      rw [realDiscovery, hok]
    obtain ⟨hall, htemp⟩ := (discoverLoop_ok [] tempCache children).mp hok
    intro child hchild
    by_contra hnot
    obtain ⟨hnone, hread⟩ := readChild_of_not_decimal hnot
    obtain ⟨entry, hread⟩ := hread.resolve_left (not_not.mpr (hall child hchild))
    -- under the key of this child there is an entry more than there should be
    have hvalues := congrArg List.length (hcache entry.1)
    rw [hlocal, htemp, MultiMap.get_addAll, length_values, MultiMap.get, List.nil_append,
      length_values] at hvalues
    have himp : ∀ c, ((wellFormedEntry c).any fun e => e.1 = entry.1) = true →
        ((entryRead c).any fun e => e.1 = entry.1) = true := by
      intro c hc
      by_cases hdecimal : Decimal c
      · rwa [entryRead, readChild_of_decimal hdecimal]
      · rw [(readChild_of_not_decimal hdecimal).1] at hc
        cases hc
    have hcounted := of_countP_eq himp hvalues.symm child hchild
      (by simp [entryRead, hread, Except.toOption])
    rw [hnone] at hcounted
    cases hcounted
  · intro hall
    have hentries : children.filterMap entryRead = children.filterMap wellFormedEntry :=
      List.filterMap_congr fun child hchild => by
        rw [entryRead, readChild_of_decimal (hall child hchild)]
        rfl
    have hok := (discoverLoop_ok [] _ children).mpr
      ⟨fun child hchild => ⟨_, readChild_of_decimal (hall child hchild)⟩, rfl⟩
    refine ⟨by rw [realDiscovery, hok], fun key => ?_⟩
    rw [realDiscovery, hok]
    show MultiMap.get key (MultiMap.addAll [] (children.filterMap entryRead)) = _
    rw [MultiMap.get_addAll, hentries]
    rfl

/-- A child whose port is a word keeps a good child from being found. -/
theorem bad_port_stops_discovery :
    ¬ ∀ (registry : ZookeeperRegistry) (children : List (List UInt8)),
      SkipsMalformed registry children := by
  intro h
  have hvalid : ValidZnode (bytes "/") := by decide
  obtain ⟨hdone, _⟩ := h { baseZnode := bytes "/", valid := hvalid, localCache := [] }
    [bytes "http://h:80/A/f?serializer=json", bytes "http://h:x/A/f?serializer=json"]
  obtain ⟨tempCache, hok⟩ := loop_of_done hdone
  obtain ⟨read, hread⟩ := ((discoverLoop_ok _ _ _).mp hok).1
    (bytes "http://h:x/A/f?serializer=json") (by simp)
  have hraises : readChild (bytes "http://h:x/A/f?serializer=json") = .error invalidLiteral := by
    decide +kernel
  cases hraises.symm.trans hread

end ZookeeperRegistry

end SummerRpc
