import SummerRpc.Helper.Url
import SummerRpc.Server.Exporter

/-! # The registry

What `RpcServer._register_if_necessary` registers with the `ZookeeperRegistry` of
`registry.py`, and what the registry discovers.

* `registerEntries`, `realRegister`: a URL for each exported method, as the name of a child
  of the base znode;
* `realDiscovery`, `getRemotes`: the children taken apart, and what is found of them;
* `mem_getChildren`: the children after any servers have registered;
* `mem_getRemotes`: what is found after the children have been discovered.
-/

namespace SummerRpc

/-- `RegisterEntrySet` -/
structure RegisterEntrySet where
  map : List (List UInt8 × List UInt8) := []

/-- `with_entry` -/
def RegisterEntrySet.withEntry (path data : List UInt8) (entries : RegisterEntrySet) :
    RegisterEntrySet where
  map := entries.map.filter (fun entry => entry.1 ≠ path) ++ [(path, data)]

/-- The transports of the repository. -/
inductive TransportName where
  | record | http
deriving DecidableEq, Repr

/-- `get_name` -/
def TransportName.getName : TransportName → List UInt8
  | record => bytes "record"
  | http => bytes "http"

/-- The serializers of the repository. -/
inductive SerializerName where
  | pickle | json | msgpack
deriving DecidableEq, Repr

/-- `get_name` -/
def SerializerName.getName : SerializerName → List UInt8
  | pickle => bytes "pickle"
  | json => bytes "json"
  | msgpack => bytes "msgpack"

/-- `"/%s/%s" % (class_name, method_name)` -/
def methodPath (className methodName : List UInt8) : List UInt8 :=
  47 :: (className ++ 47 :: methodName)

/-! ## Registration -/

/-- What `_register_if_necessary` reads of an `RpcServer` and its process. -/
structure RegisteringServer where
  /-- `getsockname()` of the server socket -/
  host : List UInt8
  port : ℕ
  transport : TransportName
  serializer : SerializerName
  maxBufferSize : ℕ
  exporter : Exporter
  pid : ℕ
  hashOrder : HashOrder

namespace RegisteringServer

/-- `register_url` -/
def registerUrl (server : RegisteringServer) (className methodName : List UInt8) :
    Except Exc (List UInt8) := do
  let builder := (URLBuilder.withScheme server.transport.getName {}).withHost server.host
  let builder ← builder.withPort server.port
  let builder ← builder.withPath (methodPath className methodName)
  let builder := builder.withArgument (bytes "serializer") server.serializer.getName
  let builder := builder.withArgument (bytes "max_buffer_size") (decimal server.maxBufferSize)
  return builder.build server.hashOrder true

/-- `'{"pid": %d}' % os.getpid()` -/
def data (server : RegisteringServer) : List UInt8 :=
  bytes "\x7b\"pid\": " ++ decimal server.pid ++ bytes "\x7d"

/-- One round of the loop of `_register_if_necessary`. -/
def registerMethod (server : RegisteringServer) (entries : RegisterEntrySet)
    (item : List UInt8 × List UInt8 × Method) : Except Exc RegisterEntrySet := do
  let registerUrl ← server.registerUrl item.1 item.2.1
  return entries.withEntry registerUrl server.data

/-- The entries `_register_if_necessary` hands to the registry. -/
def registerEntries (server : RegisteringServer) : Except Exc RegisterEntrySet :=
  server.exporter.iterMethod.foldlM server.registerMethod {}

end RegisteringServer

/-- ZooKeeper: the znodes below the base znode, by path, with their data. -/
structure Zookeeper where
  nodes : List (List UInt8 × List UInt8) := []

namespace Zookeeper

/-- `zookeeper.create`; `NodeExistsException` when there is such a znode. -/
def create (path data : List UInt8) (zookeeper : Zookeeper) : Option Zookeeper :=
  if (zookeeper.nodes.map Prod.fst).contains path then none
  else some { nodes := (path, data) :: zookeeper.nodes }

/-- `zookeeper.delete` -/
def delete (path : List UInt8) (zookeeper : Zookeeper) : Zookeeper where
  nodes := zookeeper.nodes.filter fun node => node.1 ≠ path

/-- The path of the children of a znode, before their names. -/
def childPrefix (path : List UInt8) : List UInt8 := if path = [47] then [47] else path ++ [47]

/-- The name of a znode that is a child of the one with the given path. -/
def childName (path node : List UInt8) : Option (List UInt8) :=
  if childPrefix path <+: node ∧ 47 ∉ node.drop (childPrefix path).length then
    some (node.drop (childPrefix path).length)
  else none

/-- `zookeeper.get_children` -/
def getChildren (path : List UInt8) (zookeeper : Zookeeper) : List (List UInt8) :=
  zookeeper.nodes.filterMap fun node => childName path node.1

end Zookeeper

/-- A znode starts with `'/'`, and only the root ends with it. -/
def ValidZnode (baseZnode : List UInt8) : Prop :=
  baseZnode.head? = some 47 ∧ ¬ (baseZnode ≠ [47] ∧ baseZnode.getLast? = some 47)

instance (baseZnode : List UInt8) : Decidable (ValidZnode baseZnode) :=
  inferInstanceAs (Decidable (_ ∧ _))

/-- Scheme, path and serializer. -/
abbrev ServiceKey := List UInt8 × List UInt8 × List UInt8

/-- Host and port. -/
abbrev Remote := List UInt8 × ℤ

/-- `ZookeeperRegistry` -/
structure ZookeeperRegistry where
  baseZnode : List UInt8
  valid : ValidZnode baseZnode
  localCache : MultiMap ServiceKey Remote

namespace ZookeeperRegistry

/-- `ZookeeperRegistry(hosts, base_znode)` -/
def new (baseZnode : List UInt8) : Except Exc ZookeeperRegistry :=
  if h : ValidZnode baseZnode then .ok { baseZnode, valid := h, localCache := [] }
  else .error { cls := .runtimeError, msg := "invalid base_znode" }

/-- The path of the znode of an entry. -/
def znodePath (baseZnode znode : List UInt8) : List UInt8 :=
  if baseZnode = [47] then 47 :: znode else baseZnode ++ 47 :: znode

/-- One round of the loop of `_real_register`: a znode that is there already is deleted and
created again, or `NodeExistsException` is raised. -/
def registerEntry (baseZnode : List UInt8) (deleteIfExists : Bool) (zookeeper : Zookeeper)
    (entry : List UInt8 × List UInt8) : Option Zookeeper :=
  let znode := znodePath baseZnode entry.1
  match zookeeper.create znode entry.2 with
  | some created => some created
  | none => if deleteIfExists then (zookeeper.delete znode).create znode entry.2 else none

/-- `_real_register` -/
def realRegister (baseZnode : List UInt8) (deleteIfExists : Bool) (entries : RegisterEntrySet)
    (zookeeper : Zookeeper) : Option Zookeeper :=
  entries.map.foldlM (registerEntry baseZnode deleteIfExists) zookeeper

/-- `_register_if_necessary`, with a registry that is connected. -/
def register (baseZnode : List UInt8) (zookeeper : Zookeeper) (server : RegisteringServer) :
    Option Zookeeper := do
  let entries ← server.registerEntries.toOption
  realRegister baseZnode true entries zookeeper

/-- What some servers leave behind, one after the other. -/
def registerAll (baseZnode : List UInt8) (servers : List RegisteringServer) : Option Zookeeper :=
  servers.foldlM (register baseZnode) {}

/-! ## Discovery -/

/-- What the loop of `_real_discovery` adds to the cache for a URL: nothing when it has no
serializer, or no port. -/
def readUrl (url : ParseResult) : Except Exc (Option (ServiceKey × Remote)) :=
  match MultiMap.get (bytes "serializer") (parseQuery url.query), splitOnce 58 url.netloc with
  | serializer :: _, some (host, port) => do
    let port ← intLiteral port
    return some ((url.scheme, url.path, serializer), (host, port))
  | _, _ => return none

/-- What it adds for a child. -/
def readChild (child : List UInt8) : Except Exc (Option (ServiceKey × Remote)) := do
  let url ← urlparse (unquote child)
  readUrl url

/-- The loop of `_real_discovery` -/
def discoverLoop (tempCache : MultiMap ServiceKey Remote) :
    List (List UInt8) → Except Exc (MultiMap ServiceKey Remote)
  | [] => .ok tempCache
  | child :: children => do
    match ← readChild child with
    | none => discoverLoop tempCache children
    | some (k, v) => discoverLoop (MultiMap.add k v tempCache) children

/-- `_real_discovery`, given the children: the cache is replaced when the loop is done. -/
def realDiscovery (registry : ZookeeperRegistry) (children : List (List UInt8)) :
    Except Exc Unit × ZookeeperRegistry :=
  match discoverLoop [] children with
  | .ok tempCache => (.ok (), { registry with localCache := tempCache })
  | .error ex => (.error ex, registry)

/-- `get_remotes` -/
def getRemotes (registry : ZookeeperRegistry)
    (className methodName transport serializer : List UInt8) : List Remote :=
  MultiMap.get (transport, methodPath className methodName, serializer) registry.localCache

end ZookeeperRegistry

/-! ## What is registered -/

namespace RegisteringServer

variable (server : RegisteringServer)

/-- The network location of the URLs. -/
def netloc : List UInt8 := server.host ++ 58 :: decimal server.port

/-- Their query arguments. -/
def arguments : MultiMap (List UInt8) (List UInt8) :=
  [(bytes "serializer", [server.serializer.getName]),
    (bytes "max_buffer_size", [decimal server.maxBufferSize])]

def query : List UInt8 :=
  URLBuilder.joinArguments server.hashOrder server.arguments

/-- The URL of a method, before it is quoted. -/
def url (className methodName : List UInt8) : List UInt8 :=
  server.transport.getName ++
    58 :: 47 :: 47 ::
      (server.netloc ++ 47 :: ((className ++ 47 :: methodName) ++ 63 :: server.query))

theorem registerUrl_eq (className methodName : List UInt8) :
    server.registerUrl className methodName = .ok (quote (server.url className methodName)) := by
  have harguments : MultiMap.add (bytes "max_buffer_size") (decimal server.maxBufferSize)
      (MultiMap.add (bytes "serializer") server.serializer.getName []) = server.arguments := by
    rw [MultiMap.add, MultiMap.add, if_neg (by decide)]
    rfl
  unfold registerUrl methodPath
  simp only [URLBuilder.withPort_natCast, URLBuilder.withPath_slash, bind, Except.bind,
    URLBuilder.withArgument, URLBuilder.withScheme, URLBuilder.withHost, harguments]
  simp only [URLBuilder.build, arguments, url, query, netloc, List.isEmpty_cons, if_true,
    Bool.false_eq_true, if_false, List.append_nil, List.append_assoc, List.cons_append]
  rfl

/-- The names and values of the query arguments have no delimiters in them. -/
theorem arguments_clean {b : UInt8} (hb : b = 38 ∨ b = 61 ∨ b = 35) :
    b ∉ bytes "serializer" ∧ b ∉ server.serializer.getName ∧ b ∉ bytes "max_buffer_size" ∧
      b ∉ decimal server.maxBufferSize := by
  refine ⟨?_, ?_, ?_, ?_⟩
  · rcases hb with rfl | rfl | rfl <;> decide
  · cases server.serializer <;> rcases hb with rfl | rfl | rfl <;> decide
  · rcases hb with rfl | rfl | rfl <;> decide
  · intro hmem
    have hdigit := isDigit_of_mem_decimal hmem
    rcases hb with rfl | rfl | rfl <;> cases hdigit

/-- The query is parsed back, in whatever order the arguments are written. -/
theorem parseQuery_query :
    MultiMap.get (bytes "serializer") (parseQuery server.query) = [server.serializer.getName] := by
  obtain ⟨hk, hv, hk', hv'⟩ := server.arguments_clean (Or.inl rfl)
  obtain ⟨heq, _, heq', _⟩ := server.arguments_clean (Or.inr (Or.inl rfl))
  have hne : bytes "max_buffer_size" ≠ bytes "serializer" := by decide
  unfold query arguments
  rcases URLBuilder.joinArguments_two server.hashOrder (bytes "serializer")
    server.serializer.getName (bytes "max_buffer_size") (decimal server.maxBufferSize) with h | h
  · rw [h, parseQuery_two heq heq' ⟨hk, hv⟩ ⟨hk', hv'⟩]
    simp only [MultiMap.addAll, List.foldl_cons, List.foldl_nil, MultiMap.get_add, if_pos,
      if_neg hne, MultiMap.get, List.nil_append, List.append_nil]
  · rw [h, parseQuery_two heq' heq ⟨hk', hv'⟩ ⟨hk, hv⟩]
    simp only [MultiMap.addAll, List.foldl_cons, List.foldl_nil, MultiMap.get_add, if_pos,
      if_neg hne, MultiMap.get, List.nil_append]

theorem mem_query {b : UInt8} (h : b ∈ server.query) :
    b = 38 ∨ b = 61 ∨ b ∈ bytes "serializer" ∨ b ∈ server.serializer.getName ∨
      b ∈ bytes "max_buffer_size" ∨ b ∈ decimal server.maxBufferSize := by
  unfold query arguments at h
  rcases URLBuilder.joinArguments_two server.hashOrder (bytes "serializer")
    server.serializer.getName (bytes "max_buffer_size") (decimal server.maxBufferSize)
    with heq | heq
  · rw [heq] at h
    exact mem_two h
  · rw [heq] at h
    have hmem := mem_two h
    tauto

/-- There is no `'#'` in the query. -/
theorem hash_notMem_query : 35 ∉ server.query := by
  obtain ⟨hk, hv, hk', hv'⟩ := server.arguments_clean (Or.inr (Or.inr rfl))
  intro hmem
  rcases server.mem_query hmem with hb | hb | hb | hb | hb | hb
  · cases hb
  · cases hb
  · exact hk hb
  · exact hv hb
  · exact hk' hb
  · exact hv' hb

end RegisteringServer

/-- The paths of the entries are those there were, and the one that is added. -/
theorem RegisterEntrySet.mem_withEntry {path data other : List UInt8} {entries : RegisterEntrySet} :
    other ∈ (entries.withEntry path data).map.map Prod.fst ↔
      other ∈ entries.map.map Prod.fst ∨ other = path := by
  simp only [withEntry, List.map_append, List.map_cons, List.map_nil, List.mem_append,
    List.mem_singleton, List.mem_map, List.mem_filter, decide_eq_true_eq]
  constructor
  · rintro (⟨entry, ⟨hentry, _⟩, rfl⟩ | rfl)
    · exact Or.inl ⟨entry, hentry, rfl⟩
    · exact Or.inr rfl
  · rintro (⟨entry, hentry, rfl⟩ | rfl)
    · by_cases h : entry.1 = path
      · exact Or.inr h
      · exact Or.inl ⟨entry, ⟨hentry, h⟩, rfl⟩
    · exact Or.inr rfl

/-- The entries are the quoted URLs of the methods that are exported. -/
theorem RegisteringServer.registerEntries_spec (server : RegisteringServer) :
    ∃ entries, server.registerEntries = .ok entries ∧ ∀ path,
      path ∈ entries.map.map Prod.fst ↔ ∃ className methodName,
        server.exporter.Exports className methodName ∧
          path = quote (server.url className methodName) := by
  have hloop : ∀ (items : List (List UInt8 × List UInt8 × Method)) (start : RegisterEntrySet),
      ∃ entries, items.foldlM server.registerMethod start = .ok entries ∧
        ∀ path, path ∈ entries.map.map Prod.fst ↔ path ∈ start.map.map Prod.fst ∨
          ∃ item ∈ items, path = quote (server.url item.1 item.2.1) := by
    intro items
    induction items with
    | nil =>
        intro start
        exact ⟨start, rfl, fun path => by simp⟩
    | cons item items ih =>
        intro start
        obtain ⟨entries, hfold, hentries⟩ :=
          ih (start.withEntry (quote (server.url item.1 item.2.1)) server.data)
        refine ⟨entries, ?_, ?_⟩
        · rw [List.foldlM_cons, registerMethod, server.registerUrl_eq]
          exact hfold
        · intro path
          rw [hentries, RegisterEntrySet.mem_withEntry, or_assoc]
          simp only [List.mem_cons, exists_eq_or_imp]
  obtain ⟨entries, hfold, hentries⟩ := hloop server.exporter.iterMethod {}
  refine ⟨entries, hfold, ?_⟩
  intro path
  rw [hentries]
  constructor
  · rintro (hmem | ⟨item, hitem, rfl⟩)
    · cases hmem
    · exact ⟨item.1, item.2.1, ⟨item.2.2, hitem⟩, rfl⟩
  · rintro ⟨className, methodName, ⟨method, hmethod⟩, rfl⟩
    exact Or.inr ⟨_, hmethod, rfl⟩

/-! ## What there is after registration -/

namespace Zookeeper

/-- The paths of the znodes. -/
def paths (zookeeper : Zookeeper) : List (List UInt8) := zookeeper.nodes.map Prod.fst

theorem mem_delete {path other : List UInt8} {zookeeper : Zookeeper} :
    other ∈ (zookeeper.delete path).paths ↔ other ∈ zookeeper.paths ∧ other ≠ path := by
  simp only [paths, delete, List.mem_map, List.mem_filter, decide_eq_true_eq]
  constructor
  · rintro ⟨node, ⟨hnode, hne⟩, rfl⟩
    exact ⟨⟨node, hnode, rfl⟩, hne⟩
  · rintro ⟨⟨node, hnode, rfl⟩, hne⟩
    exact ⟨node, ⟨hnode, hne⟩, rfl⟩

theorem create_of_notMem {path data : List UInt8} {zookeeper : Zookeeper}
    (h : path ∉ zookeeper.paths) :
    zookeeper.create path data = some { nodes := (path, data) :: zookeeper.nodes } :=
  if_neg fun hcontains => h (List.contains_iff_mem.mp hcontains)

theorem create_of_mem {path data : List UInt8} {zookeeper : Zookeeper}
    (h : path ∈ zookeeper.paths) : zookeeper.create path data = none :=
  if_pos (List.contains_iff_mem.mpr h)

end Zookeeper

namespace ZookeeperRegistry

variable {baseZnode : List UInt8}

theorem childPrefix_append (znode : List UInt8) :
    Zookeeper.childPrefix baseZnode ++ znode = znodePath baseZnode znode := by
  unfold Zookeeper.childPrefix znodePath
  split
  · rfl
  · rw [List.append_assoc]
    rfl

/-- The znode of an entry without `'/'` in it is a child of the base znode, under the name
of the entry. -/
theorem childName_znodePath {znode : List UInt8} (h : 47 ∉ znode) :
    Zookeeper.childName baseZnode (znodePath baseZnode znode) = some znode := by
  unfold Zookeeper.childName
  rw [← childPrefix_append, List.drop_left, if_pos ⟨List.prefix_append _ _, h⟩]

/-- An entry is there when it has been registered, and what else was there stays. -/
theorem registerEntry_spec (baseZnode : List UInt8) (zookeeper : Zookeeper)
    (entry : List UInt8 × List UInt8) :
    ∃ after, registerEntry baseZnode true zookeeper entry = some after ∧
      ∀ path, path ∈ after.paths ↔ path ∈ zookeeper.paths ∨ path = znodePath baseZnode entry.1 := by
  unfold registerEntry
  by_cases h : znodePath baseZnode entry.1 ∈ zookeeper.paths
  · -- it is deleted first
    have hgone : znodePath baseZnode entry.1 ∉
        (zookeeper.delete (znodePath baseZnode entry.1)).paths := by
      rw [Zookeeper.mem_delete]
      exact fun hmem => hmem.2 rfl
    simp only [Zookeeper.create_of_mem h, Zookeeper.create_of_notMem hgone, if_true]
    refine ⟨_, rfl, ?_⟩
    intro path
    show path ∈ _ :: (zookeeper.delete (znodePath baseZnode entry.1)).paths ↔ _
    rw [List.mem_cons, Zookeeper.mem_delete]
    by_cases heq : path = znodePath baseZnode entry.1
    · exact ⟨fun _ => Or.inr heq, fun _ => Or.inl heq⟩
    · exact ⟨fun hmem => Or.inl (hmem.resolve_left heq).1, fun hmem =>
        Or.inr ⟨hmem.resolve_right heq, heq⟩⟩
  · simp only [Zookeeper.create_of_notMem h]
    refine ⟨_, rfl, ?_⟩
    intro path
    show path ∈ _ :: zookeeper.paths ↔ _
    rw [List.mem_cons, or_comm]

theorem realRegister_spec (baseZnode : List UInt8) (entries : List (List UInt8 × List UInt8))
    (zookeeper : Zookeeper) :
    ∃ after, entries.foldlM (registerEntry baseZnode true) zookeeper = some after ∧
      ∀ path, path ∈ after.paths ↔ path ∈ zookeeper.paths ∨
        ∃ name ∈ entries.map Prod.fst, path = znodePath baseZnode name := by
  induction entries generalizing zookeeper with
  | nil => exact ⟨zookeeper, rfl, fun path => by simp⟩
  | cons entry entries ih =>
      obtain ⟨middle, hentry, hmiddle⟩ := registerEntry_spec baseZnode zookeeper entry
      obtain ⟨after, hfold, hafter⟩ := ih middle
      refine ⟨after, ?_, ?_⟩
      · rw [List.foldlM_cons, hentry]
        exact hfold
      · intro path
        rw [hafter, hmiddle, or_assoc]
        simp only [List.map_cons, List.mem_cons, exists_eq_or_imp]

/-- A server registers the methods it exports. -/
theorem register_spec (baseZnode : List UInt8) (zookeeper : Zookeeper)
    (server : RegisteringServer) :
    ∃ after, register baseZnode zookeeper server = some after ∧
      ∀ path, path ∈ after.paths ↔ path ∈ zookeeper.paths ∨ ∃ className methodName,
        server.exporter.Exports className methodName ∧
          path = znodePath baseZnode (quote (server.url className methodName)) := by
  obtain ⟨entries, hregister, hentries⟩ := server.registerEntries_spec
  obtain ⟨after, hfold, hafter⟩ := realRegister_spec baseZnode entries.map zookeeper
  refine ⟨after, ?_, ?_⟩
  · unfold register
    rw [hregister]
    exact hfold
  · intro path
    rw [hafter]
    refine or_congr_right ?_
    constructor
    · rintro ⟨name, hname, rfl⟩
      obtain ⟨className, methodName, hexports, rfl⟩ := (hentries name).mp hname
      exact ⟨className, methodName, hexports, rfl⟩
    · rintro ⟨className, methodName, hexports, rfl⟩
      exact ⟨_, (hentries _).mpr ⟨className, methodName, hexports, rfl⟩, rfl⟩

theorem registerAll_spec (baseZnode : List UInt8) (servers : List RegisteringServer)
    (zookeeper : Zookeeper) :
    ∃ after, servers.foldlM (register baseZnode) zookeeper = some after ∧
      ∀ path, path ∈ after.paths ↔ path ∈ zookeeper.paths ∨ ∃ server ∈ servers,
        ∃ className methodName, server.exporter.Exports className methodName ∧
          path = znodePath baseZnode (quote (server.url className methodName)) := by
  induction servers generalizing zookeeper with
  | nil => exact ⟨zookeeper, rfl, fun path => by simp⟩
  | cons server servers ih =>
      obtain ⟨middle, hserver, hmiddle⟩ := register_spec baseZnode zookeeper server
      obtain ⟨after, hfold, hafter⟩ := ih middle
      refine ⟨after, ?_, ?_⟩
      · rw [List.foldlM_cons, hserver]
        exact hfold
      · intro path
        rw [hafter, hmiddle, or_assoc]
        simp only [List.mem_cons, exists_eq_or_imp]

/-- The children of the base znode are the quoted URLs of the methods that are exported. -/
theorem mem_getChildren {servers : List RegisteringServer} {zookeeper : Zookeeper}
    (h : registerAll baseZnode servers = some zookeeper) (child : List UInt8) :
    child ∈ zookeeper.getChildren baseZnode ↔ ∃ server ∈ servers, ∃ className methodName,
      server.exporter.Exports className methodName ∧
        child = quote (server.url className methodName) := by
  obtain ⟨after, hfold, hafter⟩ := registerAll_spec baseZnode servers {}
  have heq : after = zookeeper := Option.some.inj (hfold.symm.trans h)
  subst heq
  unfold Zookeeper.getChildren
  rw [List.mem_filterMap]
  constructor
  · rintro ⟨node, hnode, hname⟩
    rcases (hafter node.1).mp (List.mem_map_of_mem hnode) with hmem | hmem
    · cases hmem
    · obtain ⟨server, hserver, className, methodName, hexports, hpath⟩ := hmem
      rw [hpath, childName_znodePath (slash_notMem_quote _)] at hname
      exact ⟨server, hserver, className, methodName, hexports, (Option.some.inj hname).symm⟩
  · rintro ⟨server, hserver, className, methodName, hexports, rfl⟩
    have hmem := (hafter _).mpr
      (Or.inr ⟨server, hserver, className, methodName, hexports, rfl⟩)
    obtain ⟨node, hnode, hpath⟩ := List.mem_map.mp hmem
    refine ⟨node, hnode, ?_⟩
    rw [hpath, childName_znodePath (slash_notMem_quote _)]

/-! ## What is found -/

/-- The child is read, whether or not it adds to the cache. -/
def Readable (child : List UInt8) : Prop := ∃ read, readChild child = .ok read

theorem discoverLoop_readable {child : List UInt8} {read : Option (ServiceKey × Remote)}
    (h : readChild child = .ok read) (start : MultiMap ServiceKey Remote)
    (children : List (List UInt8)) :
    discoverLoop start (child :: children) =
      discoverLoop (MultiMap.addAll start read.toList) children := by
  rw [discoverLoop, h]
  cases read with
  | none => rfl
  | some entry => rfl

/-- The loop is done if and only if every child is read; then the cache has what it had, and
what has been read. -/
theorem discoverLoop_spec (start : MultiMap ServiceKey Remote) (children : List (List UInt8)) :
    (∃ ex, discoverLoop start children = .error ex ∧ ¬ ∀ child ∈ children, Readable child) ∨
    ∃ tempCache, discoverLoop start children = .ok tempCache ∧
      (∀ child ∈ children, Readable child) ∧ ∀ k v, v ∈ MultiMap.get k tempCache ↔
        v ∈ MultiMap.get k start ∨ ∃ child ∈ children, readChild child = .ok (some (k, v)) := by
  induction children generalizing start with
  | nil => exact Or.inr ⟨start, rfl, fun _ h => (List.not_mem_nil h).elim, fun k v => by simp⟩
  | cons child children ih =>
      cases hread : readChild child with
      | error ex =>
          left
          refine ⟨ex, ?_, ?_⟩
          · rw [discoverLoop, hread]
            rfl
          · intro hall
            obtain ⟨read, hok⟩ := hall child List.mem_cons_self
            rw [hread] at hok
            cases hok
      | ok read =>
          rw [discoverLoop_readable hread]
          rcases ih (MultiMap.addAll start read.toList)
            with ⟨ex, hex, hnot⟩ | ⟨cache, hok, hall, hget⟩
          · left
            exact ⟨ex, hex, fun hall => hnot fun c hc => hall c (List.mem_cons_of_mem _ hc)⟩
          · right
            refine ⟨cache, hok, ?_, ?_⟩
            · exact List.forall_mem_cons.mpr ⟨⟨read, hread⟩, hall⟩
            · intro k v
              rw [hget, MultiMap.mem_get_addAll, or_assoc, Option.mem_toList]
              simp only [List.mem_cons, exists_eq_or_imp, hread, Except.ok.injEq]

/-- What is found after the first discovery: when every child has been read, what has been
read of some child. -/
theorem mem_getRemotes {registry : ZookeeperRegistry} (hnew : new baseZnode = .ok registry)
    (children : List (List UInt8)) (className methodName transport serializer : List UInt8)
    (remote : Remote) :
    remote ∈
        (registry.realDiscovery children).2.getRemotes className methodName transport serializer ↔
      (∀ child ∈ children, Readable child) ∧ ∃ child ∈ children, readChild child =
        .ok (some ((transport, methodPath className methodName, serializer), remote)) := by
  have hempty : registry.localCache = [] := by
    unfold new at hnew
    split at hnew
    · cases hnew
      rfl
    · cases hnew
  unfold realDiscovery getRemotes
  rcases discoverLoop_spec [] children with ⟨ex, hex, hnot⟩ | ⟨cache, hok, hall, hget⟩
  · simp only [hex, hempty]
    exact ⟨fun hmem => (List.not_mem_nil hmem).elim, fun h => (hnot h.1).elim⟩
  · simp only [hok, hget]
    exact ⟨fun h => ⟨hall, h.resolve_left List.not_mem_nil⟩, fun h => Or.inr h.2⟩

end ZookeeperRegistry

end SummerRpc
