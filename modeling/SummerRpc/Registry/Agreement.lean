import SummerRpc.Registry.ZookeeperRegistry

/-! # Registration and discovery

Whether a registry that discovers the children some servers have registered finds, for
every method, just the servers that export it.

The URL of a method is put together without escaping the names in it, and quoted as a
whole. What discovery takes apart again may not be what has been put together.

* `Parsable`: the names do not have the delimiters of a URL in them;
* `Unambiguous`: a path that can be read as that of several methods is one of methods that
  are all exported;
* `agree_iff`: registration and discovery agree if and only if it is so for every method
  that is exported.
-/

namespace SummerRpc

namespace ZookeeperRegistry

/-- The registry finds the servers that export a method, and no others. -/
def Agree (registry : ZookeeperRegistry) (servers : List RegisteringServer) : Prop :=
  ∀ className methodName (transport : TransportName) (serializer : SerializerName) host (port : ℤ),
    (host, port) ∈ registry.getRemotes className methodName transport.getName serializer.getName ↔
      ∃ server ∈ servers, server.host = host ∧ server.port = port ∧
        server.transport = transport ∧ server.serializer = serializer ∧
        server.exporter.Exports className methodName

/-- The URL of the method is taken apart as it has been put together. -/
structure Parsable (server : RegisteringServer) (className methodName : List UInt8) : Prop where
  host : ∀ b ∈ server.host, endsNetloc b = false ∧ b ≠ 58
  brackets : ¬ InvalidIPv6 server.host
  path : 63 ∉ methodPath className methodName ∧ 35 ∉ methodPath className methodName
  params : server.transport = .http → 59 ∉ lastSegment (methodPath className methodName)

/-- Whatever method the path can be read as is exported as well. -/
def Unambiguous (servers : List RegisteringServer) (server : RegisteringServer)
    (className methodName : List UInt8) : Prop :=
  ∀ className' methodName', methodPath className' methodName' = methodPath className methodName →
    ∃ other ∈ servers, other.host = server.host ∧ other.port = server.port ∧
      other.transport = server.transport ∧ other.serializer = server.serializer ∧
      other.exporter.Exports className' methodName'

variable {registry : ZookeeperRegistry} {servers : List RegisteringServer}

/-! ## A child, read -/

theorem invalidIPv6_netloc (server : RegisteringServer) :
    InvalidIPv6 server.netloc ↔ InvalidIPv6 server.host := by
  have hbracket : ∀ b, isDigit b = false → b ≠ 58 →
      (b ∈ server.netloc ↔ b ∈ server.host) := by
    intro b hb hcolon
    unfold RegisteringServer.netloc
    rw [List.mem_append, List.mem_cons]
    constructor
    · rintro (hhost | heq | hport)
      · exact hhost
      · exact absurd heq hcolon
      · rw [isDigit_of_mem_decimal hport] at hb
        cases hb
    · exact Or.inl
  unfold InvalidIPv6
  rw [hbracket 91 rfl (by decide), hbracket 93 rfl (by decide)]

theorem endsNetloc_of_isDigit {b : UInt8} (h : isDigit b = true) : endsNetloc b = false := by
  simp only [endsNetloc, Bool.or_eq_false_iff, decide_eq_false_iff_not]
  refine ⟨⟨?_, ?_⟩, ?_⟩
  · rintro rfl
    cases h
  · rintro rfl
    cases h
  · rintro rfl
    cases h

theorem usesParams_iff (transport : TransportName) :
    transport.getName ∈ usesParams ↔ transport = .http := by
  cases transport <;> decide

/-- The URL of a method, taken apart. -/
theorem readChild_url {server : RegisteringServer} {className methodName : List UInt8}
    (hhost : ∀ b ∈ server.host, endsNetloc b = false ∧ b ≠ 58)
    (hpath : 63 ∉ methodPath className methodName ∧ 35 ∉ methodPath className methodName)
    (hparams : server.transport = .http → 59 ∉ lastSegment (methodPath className methodName)) :
    readChild (quote (server.url className methodName)) =
      if InvalidIPv6 server.host then .error { cls := .valueError, msg := "Invalid IPv6 URL" }
      else .ok (some ((server.transport.getName, methodPath className methodName,
        server.serializer.getName), (server.host, (server.port : ℤ)))) := by
  have hnetloc : ∀ b ∈ server.netloc, endsNetloc b = false := by
    intro b hb
    rcases List.mem_append.mp hb with hhead | hport
    · exact (hhost b hhead).1
    · rcases List.mem_cons.mp hport with rfl | hdigit
      · rfl
      · exact endsNetloc_of_isDigit (isDigit_of_mem_decimal hdigit)
  have hurl := @urlparse_built server.transport.getName server.netloc
    (className ++ 47 :: methodName) server.query (by cases server.transport <;> decide)
    (by cases server.transport <;> decide) (by cases server.transport <;> decide) hnetloc
    (fun hmem => hpath.1 (List.mem_cons_of_mem _ hmem))
    ⟨fun hmem => hpath.2 (List.mem_cons_of_mem _ hmem), server.hash_notMem_query⟩
    (fun hscheme => hparams ((usesParams_iff _).mp hscheme))
  have hcolon : 58 ∉ server.host := fun hmem => (hhost 58 hmem).2 rfl
  have hread : ∀ path, readUrl
      { scheme := server.transport.getName
        netloc := server.netloc
        path := path
        params := []
        query := server.query
        fragment := [] } =
      .ok (some ((server.transport.getName, path, server.serializer.getName),
        (server.host, (server.port : ℤ)))) := by
    intro path
    unfold readUrl
    rw [server.parseQuery_query, RegisteringServer.netloc, splitOnce_cons hcolon]
    show intLiteral (decimal server.port) >>= _ = _
    rw [intLiteral_decimal]
    rfl
  unfold readChild RegisteringServer.url
  rw [unquote_quote, hurl]
  simp only [invalidIPv6_netloc]
  split
  · rfl
  · exact hread _

theorem readUrl_some {url : ParseResult} {scheme path serializer host : List UInt8} {port : ℤ}
    (h : readUrl url = .ok (some ((scheme, path, serializer), (host, port)))) :
    url.scheme = scheme ∧ url.path = path ∧
      ∃ text, splitOnce 58 url.netloc = some (host, text) := by
  unfold readUrl at h
  split at h
  · next name names head text hget hsplit =>
      cases hport : intLiteral text with
      | error ex =>
          rw [hport] at h
          cases h
      | ok port =>
          rw [hport] at h
          cases h
          exact ⟨rfl, rfl, text, hsplit⟩
  · cases h

/-- What the parts of a child that has been read do not have in them. -/
theorem readChild_clean {child scheme path serializer host : List UInt8} {port : ℤ}
    (h : readChild child = .ok (some ((scheme, path, serializer), (host, port)))) :
    (∀ b ∈ host, endsNetloc b = false ∧ b ≠ 58) ∧ (63 ∉ path ∧ 35 ∉ path) ∧
      (scheme ∈ usesParams → 59 ∉ lastSegment path) := by
  unfold readChild at h
  cases hurl : urlparse (unquote child) with
  | error ex =>
      rw [hurl] at h
      cases h
  | ok url =>
      rw [hurl] at h
      have hclean := urlparse_clean hurl
      obtain ⟨hscheme, hpath, portText, hnetloc⟩ := readUrl_some h
      subst hscheme hpath
      refine ⟨?_, hclean.path, hclean.params⟩
      intro b hb
      have hcut := cut_of_splitOnce hnetloc
      constructor
      · have hmem : b ∈ (cut 58 url.netloc).1 := by
          rw [hcut]
          exact hb
        exact hclean.netloc b (mem_of_mem_cut hmem)
      · rintro rfl
        have hnot := notMem_cut 58 url.netloc
        rw [hcut] at hnot
        exact hnot hb

/-! ## What is found -/

/-- Every method that is exported can be parsed and means nothing else. -/
def Proper (servers : List RegisteringServer) : Prop :=
  ∀ server ∈ servers, ∀ className methodName, server.exporter.Exports className methodName →
    Parsable server className methodName ∧ Unambiguous servers server className methodName

/-- The names of the transports and of the serializers are different. -/
theorem transport_getName_injective {a b : TransportName} (h : a.getName = b.getName) : a = b := by
  revert h
  cases a <;> cases b <;> decide

theorem serializer_getName_injective {a b : SerializerName} (h : a.getName = b.getName) :
    a = b := by
  revert h
  cases a <;> cases b <;> decide

section

variable {baseZnode : List UInt8} (hnew : new baseZnode = .ok registry)
  {zookeeper : Zookeeper} (hzookeeper : registerAll baseZnode servers = some zookeeper)
  {children : List (List UInt8)}
  (hchildren : ∀ child, child ∈ children ↔ child ∈ zookeeper.getChildren baseZnode)

include hzookeeper hchildren in
/-- The child of a method that is exported. -/
theorem child_of_exports {server : RegisteringServer} (hserver : server ∈ servers)
    {className methodName : List UInt8} (hexports : server.exporter.Exports className methodName) :
    quote (server.url className methodName) ∈ children :=
  (hchildren _).mpr ((mem_getChildren hzookeeper _).mpr
    ⟨server, hserver, className, methodName, hexports, rfl⟩)

include hnew hzookeeper hchildren in
/-- What is found of methods that can all be parsed. -/
theorem mem_getRemotes_of_parsable
    (hparsable : ∀ server ∈ servers, ∀ className methodName,
      server.exporter.Exports className methodName → Parsable server className methodName)
    (className methodName : List UInt8) (transport : TransportName) (serializer : SerializerName)
    (host : List UInt8) (port : ℤ) :
    (host, port) ∈ (registry.realDiscovery children).2.getRemotes className methodName
        transport.getName serializer.getName ↔
      ∃ server ∈ servers, ∃ className' methodName',
        server.exporter.Exports className' methodName' ∧
        methodPath className' methodName' = methodPath className methodName ∧
        server.host = host ∧ server.port = port ∧ server.transport = transport ∧
        server.serializer = serializer := by
  have hread : ∀ server ∈ servers, ∀ className methodName,
      server.exporter.Exports className methodName →
      readChild (quote (server.url className methodName)) =
        .ok (some ((server.transport.getName, methodPath className methodName,
          server.serializer.getName), (server.host, (server.port : ℤ)))) := by
    intro server hserver c m hexports
    have hp := hparsable server hserver c m hexports
    rw [readChild_url hp.host hp.path hp.params, if_neg hp.brackets]
  rw [mem_getRemotes hnew]
  constructor
  · rintro ⟨_, child, hchild, hfound⟩
    obtain ⟨server, hserver, c, m, hexports, rfl⟩ :=
      (mem_getChildren hzookeeper child).mp ((hchildren child).mp hchild)
    rw [hread server hserver c m hexports] at hfound
    simp only [Except.ok.injEq, Option.some.injEq, Prod.mk.injEq] at hfound
    obtain ⟨⟨htransport, hpath, hserializer⟩, hhost, hport⟩ := hfound
    exact ⟨server, hserver, c, m, hexports, hpath, hhost, hport,
      transport_getName_injective htransport, serializer_getName_injective hserializer⟩
  · rintro ⟨server, hserver, c, m, hexports, hpath, rfl, rfl, rfl, rfl⟩
    constructor
    · intro child hchild
      obtain ⟨other, hother, c', m', hexports', rfl⟩ :=
        (mem_getChildren hzookeeper child).mp ((hchildren child).mp hchild)
      exact ⟨_, hread other hother c' m' hexports'⟩
    · refine ⟨_, child_of_exports hzookeeper hchildren hserver hexports, ?_⟩
      rw [hread server hserver c m hexports, hpath]

include hnew hzookeeper hchildren in
/-- A method that is found can be parsed. -/
theorem parsable_of_found {server : RegisteringServer} (hserver : server ∈ servers)
    {className methodName : List UInt8} (hexports : server.exporter.Exports className methodName)
    (hfound : (server.host, (server.port : ℤ)) ∈ (registry.realDiscovery children).2.getRemotes
      className methodName server.transport.getName server.serializer.getName) :
    Parsable server className methodName := by
  obtain ⟨hall, child, _, hread⟩ := (mem_getRemotes hnew _ _ _ _ _ _).mp hfound
  obtain ⟨hhost, hpath, hparams⟩ := readChild_clean hread
  have hparams' := fun hhttp => hparams ((usesParams_iff _).mpr hhttp)
  refine ⟨hhost, ?_, hpath, hparams'⟩
  -- the child of the method itself has been read
  intro hinvalid
  obtain ⟨read, hok⟩ := hall _ (child_of_exports hzookeeper hchildren hserver hexports)
  rw [readChild_url hhost hpath hparams', if_pos hinvalid] at hok
  cases hok

include hnew hzookeeper hchildren in
theorem proper_of_agree (hagree : Agree (registry.realDiscovery children).2 servers) :
    Proper servers := by
  have hparsable : ∀ server ∈ servers, ∀ className methodName,
      server.exporter.Exports className methodName → Parsable server className methodName := by
    intro server hserver className methodName hexports
    apply parsable_of_found hnew hzookeeper hchildren hserver hexports
    exact (hagree _ _ _ _ _ _).mpr ⟨server, hserver, rfl, rfl, rfl, rfl, hexports⟩
  intro server hserver className methodName hexports
  refine ⟨hparsable server hserver className methodName hexports, ?_⟩
  intro className' methodName' hpath
  have hfound := (mem_getRemotes_of_parsable hnew hzookeeper hchildren hparsable className'
    methodName' server.transport server.serializer server.host server.port).mpr
      ⟨server, hserver, className, methodName, hexports, hpath.symm, rfl, rfl, rfl, rfl⟩
  obtain ⟨other, hother, hhost, hport, htransport, hserializer, hexports'⟩ :=
    (hagree _ _ _ _ _ _).mp hfound
  exact ⟨other, hother, hhost, Int.ofNat.inj hport, htransport, hserializer, hexports'⟩

include hnew hzookeeper hchildren in
theorem agree_of_proper (hproper : Proper servers) :
    Agree (registry.realDiscovery children).2 servers := by
  intro className methodName transport serializer host port
  have hparsable := fun server hserver c m hexports => (hproper server hserver c m hexports).1
  rw [mem_getRemotes_of_parsable hnew hzookeeper hchildren hparsable]
  constructor
  · rintro ⟨server, hserver, c, m, hexports, hpath, rfl, rfl, rfl, rfl⟩
    obtain ⟨other, hother, hhost, hport, htransport, hserializer, hexports'⟩ :=
      (hproper server hserver c m hexports).2 className methodName hpath.symm
    exact ⟨other, hother, hhost, congrArg Int.ofNat hport, htransport, hserializer, hexports'⟩
  · rintro ⟨server, hserver, rfl, rfl, rfl, rfl, hexports⟩
    exact ⟨server, hserver, className, methodName, hexports, rfl, rfl, rfl, rfl, rfl⟩

end

/-- Registration and discovery agree if and only if the names of every method that is
exported leave the parts of its URL as they are, and each method its path can be read as is
exported too. -/
theorem agree_iff (baseZnode : List UInt8) (registry : ZookeeperRegistry)
    (servers : List RegisteringServer) (zookeeper : Zookeeper) (children : List (List UInt8))
    (hnew : new baseZnode = .ok registry)
    (hzookeeper : registerAll baseZnode servers = some zookeeper)
    (hchildren : ∀ child, child ∈ children ↔ child ∈ zookeeper.getChildren baseZnode) :
    Agree (registry.realDiscovery children).2 servers ↔ Proper servers :=
  ⟨proper_of_agree hnew hzookeeper hchildren, agree_of_proper hnew hzookeeper hchildren⟩

/-! ## Names without delimiters -/

/-- The names have none of `"/?#;"` in them. -/
def PlainName (name : List UInt8) : Prop := ∀ b ∈ name, endsNetloc b = false ∧ b ≠ 59

/-- The path of plain names is that of no other names. -/
theorem methodPath_injective {c m c' m' : List UInt8} (hc : 47 ∉ c) (hm : 47 ∉ m)
    (h : methodPath c' m' = methodPath c m) : c' = c ∧ m' = m := by
  have happend : c' ++ 47 :: m' = c ++ 47 :: m := (List.cons.inj h).2
  have hcount := congrArg (List.count 47) happend
  simp only [List.count_append, List.count_cons_self, List.count_eq_zero.mpr hc,
    List.count_eq_zero.mpr hm] at hcount
  have hc' : 47 ∉ c' := List.count_eq_zero.mp (by omega)
  have hsplit := congrArg (splitOnce 47) happend
  rw [splitOnce_cons hc, splitOnce_cons hc'] at hsplit
  exact Prod.mk.inj (Option.some.inj hsplit)

/-- Servers whose hosts and names are plain are proper. -/
theorem proper_of_plain
    (hhost : ∀ server ∈ servers, (∀ b ∈ server.host, endsNetloc b = false ∧ b ≠ 58) ∧
      ¬ InvalidIPv6 server.host)
    (hnames : ∀ server ∈ servers, ∀ className methodName,
      server.exporter.Exports className methodName → PlainName className ∧ PlainName methodName) :
    Proper servers := by
  intro server hserver className methodName hexports
  obtain ⟨hclass, hmethod⟩ := hnames server hserver className methodName hexports
  have hpath : ∀ b ∈ methodPath className methodName,
      b = 47 ∨ (endsNetloc b = false ∧ b ≠ 59) := by
    intro b hb
    rcases List.mem_cons.mp hb with heq | hb
    · exact Or.inl heq
    · rcases List.mem_append.mp hb with hb | hb
      · exact Or.inr (hclass b hb)
      · rcases List.mem_cons.mp hb with heq | hb
        · exact Or.inl heq
        · exact Or.inr (hmethod b hb)
  have hnotMem : ∀ b, b ≠ 47 → (endsNetloc b = true ∨ b = 59) →
      b ∉ methodPath className methodName := by
    intro b hslash hb hmem
    rcases hpath b hmem with heq | ⟨hends, hne⟩
    · exact hslash heq
    · rcases hb with htrue | heq
      · rw [hends] at htrue
        cases htrue
      · exact hne heq
  have hslash : ∀ name, PlainName name → 47 ∉ name := by
    intro name hname hmem
    have hends := (hname 47 hmem).1
    cases hends
  constructor
  · refine ⟨(hhost server hserver).1, (hhost server hserver).2, ⟨?_, ?_⟩, ?_⟩
    · exact hnotMem 63 (by decide) (Or.inl rfl)
    · exact hnotMem 35 (by decide) (Or.inl rfl)
    · intro _ hmem
      refine hnotMem 59 (by decide) (Or.inr rfl) ?_
      exact (List.rtakeWhile_suffix inSegment _).subset hmem
  · intro className' methodName' heq
    obtain ⟨rfl, rfl⟩ := methodPath_injective (hslash _ hclass) (hslash _ hmethod) heq
    exact ⟨server, hserver, rfl, rfl, rfl, rfl, hexports⟩

/-! ## Two servers -/

/-- A server of a class with a method `add`. -/
def addServer (className : List UInt8) : RegisteringServer where
  host := bytes "127.0.0.1"
  port := 8080
  transport := .record
  serializer := .json
  maxBufferSize := 104857600
  exporter := { exported := [(className, [(bytes "add", {})])] }
  pid := 1
  hashOrder := { iteritems := id, perm := fun _ => List.Perm.refl _ }

theorem exports_addServer {className c m : List UInt8} :
    (addServer className).exporter.Exports c m ↔ c = className ∧ m = bytes "add" := by
  constructor
  · rintro ⟨method, hmem⟩
    have heq := List.mem_singleton.mp hmem
    exact ⟨congrArg Prod.fst heq, congrArg (fun item => item.2.1) heq⟩
  · rintro ⟨rfl, rfl⟩
    exact ⟨{}, List.mem_singleton.mpr rfl⟩

/-- A registry below `"/rpc"`. -/
def rpcRegistry : ZookeeperRegistry where
  baseZnode := bytes "/rpc"
  valid := by decide
  localCache := []

theorem new_rpcRegistry : new (bytes "/rpc") = .ok rpcRegistry := dif_pos rpcRegistry.valid

theorem proper_addServer : Proper [addServer (bytes "Calc")] := by
  apply proper_of_plain
  · intro server hserver
    rw [List.mem_singleton.mp hserver]
    have hall : (bytes "127.0.0.1").all (fun b => !endsNetloc b && b != 58) = true := by decide
    constructor
    · intro b hb
      simpa using List.all_eq_true.mp hall b hb
    · show ¬ InvalidIPv6 (bytes "127.0.0.1")
      decide
  · intro server hserver className methodName hexports
    rw [List.mem_singleton.mp hserver] at hexports
    obtain ⟨rfl, rfl⟩ := exports_addServer.mp hexports
    have hclass : (bytes "Calc").all (fun b => !endsNetloc b && b != 59) = true := by decide
    have hmethod : (bytes "add").all (fun b => !endsNetloc b && b != 59) = true := by decide
    exact ⟨fun b hb => by simpa using List.all_eq_true.mp hclass b hb,
      fun b hb => by simpa using List.all_eq_true.mp hmethod b hb⟩

theorem agree_iff_addServer :
    ∃ zookeeper, registerAll (bytes "/rpc") [addServer (bytes "Calc")] = some zookeeper ∧
      Agree (rpcRegistry.realDiscovery (zookeeper.getChildren (bytes "/rpc"))).2
        [addServer (bytes "Calc")] := by
  obtain ⟨zookeeper, hzookeeper, _⟩ :=
    registerAll_spec (bytes "/rpc") [addServer (bytes "Calc")] {}
  refine ⟨zookeeper, hzookeeper, ?_⟩
  exact (agree_iff (bytes "/rpc") rpcRegistry _ zookeeper _ new_rpcRegistry hzookeeper
    fun _ => Iff.rfl).mpr proper_addServer

/-- A class that is exported as `"Calc?v2"` is not found. -/
theorem exported_not_found :
    ¬ ∀ baseZnode registry servers zookeeper children, new baseZnode = .ok registry →
      registerAll baseZnode servers = some zookeeper →
      (∀ child, child ∈ children ↔ child ∈ zookeeper.getChildren baseZnode) →
      Agree (registry.realDiscovery children).2 servers := by
  intro h
  obtain ⟨zookeeper, hzookeeper, _⟩ :=
    registerAll_spec (bytes "/rpc") [addServer (bytes "Calc?v2")] {}
  have hchildren : ∀ child, child ∈ zookeeper.getChildren (bytes "/rpc") ↔
      child ∈ zookeeper.getChildren (bytes "/rpc") := fun _ => Iff.rfl
  have hproper := proper_of_agree new_rpcRegistry hzookeeper hchildren
    (h _ _ _ _ _ new_rpcRegistry hzookeeper hchildren)
  have hparsable := (hproper _ List.mem_cons_self _ _ (exports_addServer.mpr ⟨rfl, rfl⟩)).1
  exact hparsable.path.1 (by decide)

end ZookeeperRegistry

end SummerRpc
