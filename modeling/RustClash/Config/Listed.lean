import RustClash.Config.CatalogSlices

/-!
# Listed nodes

What is known of a node that `NodeCatalog::parse` lists, whatever it was read from: its
type is one of six, its transport one of three, and it passed the filter before its
transport and plugin were brought into one form.
-/

namespace RustClash

namespace Config

open Str Checked

variable {crates : Crates}

/-! ## What a reader makes -/

section

variable {α β : Type} {P : β → Prop} {x y : Option β} {f : α → Option β}

theorem forall_mem_pure {b : β} (h : P b) : ∀ c ∈ (pure b : Option β), P c :=
  fun _ hc => Option.some.inj hc ▸ h

theorem forall_mem_bind {x : Option α} (h : ∀ a, ∀ b ∈ f a, P b) : ∀ b ∈ x >>= f, P b := by
  intro b hb
  obtain ⟨a, -, ha⟩ := Option.bind_eq_some_iff.mp hb
  exact h a b ha

/-- A check that gives up. -/
theorem forall_mem_guard {c : Prop} [Decidable c] (h : ¬ c → ∀ b ∈ y, P b) :
    ∀ b ∈ (if c then (none : Option α) >>= f else y), P b := by
  intro b hb
  split at hb
  · cases hb
  · next hc => exact h hc b hb

end

/-- The node has a type that is known, in its own spelling. -/
def Typed (node : ProxyNode) : Prop := oneOf node.typeName knownTypes = true

theorem typed_of_not {ty : Str} {node : ProxyNode} (h : ¬ (!oneOf ty knownTypes) = true)
    (htype : node.typeName = ty) : Typed node := by
  rw [Typed, htype]
  simpa using h

theorem typed_yamlToNode (p : YamlMap) : ∀ node ∈ yamlToNode p, Typed node := by
  refine forall_mem_guard fun hty => ?_
  refine forall_mem_bind fun name => forall_mem_bind fun server => forall_mem_guard fun _ => ?_
  exact forall_mem_pure (typed_of_not hty rfl)

theorem typed_mapXray (ob : Json) : ∀ node ∈ mapXray ob, Typed node := by
  refine forall_mem_bind fun protocol => forall_mem_guard fun hty => ?_
  refine forall_mem_bind fun settings => forall_mem_bind fun s => forall_mem_guard fun _ => ?_
  exact forall_mem_pure (typed_of_not hty rfl)

theorem typed_mapSingbox (ob : Json) : ∀ node ∈ mapSingbox ob, Typed node := by
  refine forall_mem_bind fun ty => forall_mem_guard fun hty => ?_
  refine forall_mem_bind fun server => forall_mem_guard fun _ => ?_
  exact forall_mem_pure (typed_of_not hty rfl)

theorem typed_sip008Server (v : Json) : ∀ node ∈ sip008Server v, Typed node := by
  refine forall_mem_bind fun server => forall_mem_bind fun password => forall_mem_guard fun _ => ?_
  exact forall_mem_pure rfl

theorem typed_parseVless (url : Str) : ∀ node ∈ parseVless crates url, Typed node :=
  forall_mem_bind fun _ => forall_mem_bind fun _ => forall_mem_pure rfl

theorem typed_parseTrojan (url : Str) : ∀ node ∈ parseTrojan crates url, Typed node :=
  forall_mem_bind fun _ => forall_mem_bind fun _ => forall_mem_pure rfl

theorem typed_parseVmess (url : Str) : ∀ node ∈ parseVmess crates url, Typed node := by
  refine forall_mem_bind fun json => forall_mem_bind fun v => forall_mem_bind fun server => ?_
  exact forall_mem_guard fun _ => forall_mem_pure rfl

theorem typed_parseSocksLink (url : Str) : ∀ node ∈ parseSocksLink crates url, Typed node :=
  forall_mem_bind fun _ => forall_mem_bind fun _ => forall_mem_pure rfl

theorem typed_parseHttpLink (url : Str) : ∀ node ∈ parseHttpLink crates url, Typed node :=
  forall_mem_bind fun _ => forall_mem_guard fun _ => forall_mem_bind fun _ => forall_mem_pure rfl

/-- A reader that returns a node, if it returns, returns one with a type. -/
def Gives (x : Checked (Option ProxyNode)) : Prop := ∀ r, x = .ok r → ∀ node ∈ r, Typed node

theorem gives_ok {r : Option ProxyNode} (h : ∀ node ∈ r, Typed node) : Gives (.ok r) := by
  intro r' hr
  cases hr
  exact h

theorem gives_bind {α : Type} {x : Checked α} {f : α → Checked (Option ProxyNode)}
    (h : ∀ a, Gives (f a)) : Gives (x >>= f) := by
  intro r hr
  cases x with
  | error e => cases hr
  | ok a => exact h a r hr

theorem gives_parseSs (url : Str) : Gives (parseSs crates url) := by
  rw [parseSs]
  cases hi : find '#' url with
  | none =>
      refine gives_bind fun tag => gives_bind fun parts => gives_ok ?_
      refine forall_mem_bind fun _ => forall_mem_bind fun _ => forall_mem_bind fun _ => ?_
      exact forall_mem_pure rfl
  | some i =>
      refine gives_bind fun tag => gives_bind fun parts => gives_ok ?_
      refine forall_mem_bind fun _ => forall_mem_bind fun _ => forall_mem_bind fun _ => ?_
      exact forall_mem_pure rfl

theorem gives_parseShareLink (line : Str) : Gives (parseShareLink crates line) := by
  rw [parseShareLink]
  repeat' split
  · exact gives_ok (typed_parseVless _)
  · exact gives_ok (typed_parseTrojan _)
  · exact gives_parseSs _
  · exact gives_ok (typed_parseVmess _)
  · exact gives_ok (typed_parseSocksLink _)
  · exact gives_ok (typed_parseHttpLink _)
  · exact gives_ok fun _ h => absurd h (Option.not_mem_none _)

/-! ## What a text makes -/

/-- The nodes that are listed of some that have a type. -/
def Lists (nodes : List ProxyNode) : Prop :=
  ∃ read, nodes = filterAll read ∧ ∀ node ∈ read, Typed node

theorem lists_nil : Lists [] := ⟨[], rfl, List.forall_mem_nil _⟩

theorem lists_filterMap {α : Type} {f : α → Option ProxyNode} (h : ∀ a, ∀ node ∈ f a, Typed node)
    (as : List α) : Lists (filterAll (as.filterMap f)) := by
  refine ⟨_, rfl, fun node hnode => ?_⟩
  obtain ⟨a, -, ha⟩ := List.mem_filterMap.mp hnode
  exact h a node ha

theorem lists_nodesOfJson (v : Json) : Lists (nodesOfJson v) := by
  rw [nodesOfJson]
  split
  · refine lists_filterMap (fun ob => ?_) _
    split
    · exact typed_mapXray ob
    · split
      · exact typed_mapSingbox ob
      · exact fun _ h => nomatch h
  · split
    · exact lists_filterMap typed_sip008Server _
    · exact lists_nil

theorem lists_loadProxiesYaml {text : Str} {nodes : List ProxyNode}
    (h : filterAll <$> loadProxiesYaml text = .ok nodes) : Lists nodes := by
  rw [loadProxiesYaml] at h
  cases hread : parseProxiesSection (yamlLines text) with
  | error e =>
      rw [hread] at h
      cases h
  | ok entries =>
      rw [hread] at h
      cases h
      exact lists_filterMap typed_yamlToNode entries

theorem typed_mapM {α : Type} {f : α → Checked (Option ProxyNode)}
    (hf : ∀ line, Gives (f line)) : ∀ {lines : List α} {rs : List (Option ProxyNode)}, lines.mapM f = .ok rs →
      ∀ r ∈ rs, ∀ node ∈ r, Typed node
  | [], rs, h => by
      cases h
      exact List.forall_mem_nil _
  | line :: lines, rs, h => by
      rw [List.mapM_cons] at h
      cases hline : f line with
      | error e =>
          rw [hline] at h
          cases h
      | ok r =>
          rw [hline] at h
          cases hrest : lines.mapM f with
          | error e =>
              simp only [hrest] at h
              cases h
          | ok rs' =>
              simp only [hrest] at h
              cases h
              exact List.forall_mem_cons.mpr ⟨hf line r hline, typed_mapM hf hrest⟩

theorem lists_parseUriList {text : Str} {nodes : List ProxyNode}
    (h : filterAll <$> parseUriList crates text = .ok nodes) : Lists nodes := by
  rw [parseUriList] at h
  cases hread : (linksOf text).zipIdx.mapM fun link => parseShareLink (crates.after link.2) link.1 with
  | error e =>
      rw [hread] at h
      cases h
  | ok rs =>
      rw [hread] at h
      cases h
      refine ⟨_, rfl, fun node hnode => ?_⟩
      obtain ⟨r, hr, heq⟩ := List.mem_filterMap.mp hnode
      exact typed_mapM (fun _ => gives_parseShareLink _) hread r hr node heq

theorem lists_json {text : Str} {nodes : List ProxyNode} (h : formatOf crates text = .json nodes) :
    Lists nodes := by
  have htry : Lists (if startsWith '{' (trimStart text) || startsWith '[' (trimStart text) then
      tryParseJson crates (trimStart text) else []) := by
    split
    · rw [tryParseJson]
      cases crates.parseJson (trimStart text) with
      | none => exact lists_nil
      | some v => exact lists_nodesOfJson v
    · exact lists_nil
  simp only [formatOf] at h
  generalize (if startsWith '{' (trimStart text) || startsWith '[' (trimStart text) then
    tryParseJson crates (trimStart text) else []) = ns at h htry
  split at h
  · cases h
  · split at h
    · cases h
    · split at h
      · cases h
        exact htry
      · split at h <;> cases h

theorem lists_parseTextWith {encoded : Str → Checked (List ProxyNode)} {text : Str}
    {nodes : List ProxyNode} (hencoded : ∀ text nodes, encoded text = .ok nodes → Lists nodes)
    (h : parseTextWith crates encoded text = .ok nodes) : Lists nodes := by
  simp only [parseTextWith] at h
  cases hf : formatOf crates (stripText text) with
  | empty =>
      rw [hf] at h
      cases h
      exact lists_nil
  | yaml =>
      rw [hf] at h
      exact lists_loadProxiesYaml h
  | json ns =>
      rw [hf] at h
      cases h
      exact lists_json hf
  | links =>
      rw [hf] at h
      exact lists_parseUriList h
  | other =>
      rw [hf] at h
      exact hencoded _ _ h

theorem lists_parseEncoded {text : Str} {nodes : List ProxyNode}
    (h : parseEncoded crates text = .ok nodes) : Lists nodes := by
  rw [parseEncoded] at h
  split at h
  · cases h
    exact lists_nil
  · next decoded _ =>
      cases hparse : parseInner crates decoded with
      | error e =>
          rw [hparse] at h
          cases h
      | ok inner =>
          have hinner : Lists inner := by
            refine lists_parseTextWith (fun _ _ he => ?_) hparse
            cases he
            exact lists_nil
          rw [hparse] at h
          change (if (!inner.isEmpty) = true then pure inner else _) = _ at h
          split at h
          · cases h
            exact hinner
          · split at h
            · exact lists_parseUriList h
            · split at h
              · exact lists_loadProxiesYaml h
              · cases h
                exact lists_nil

/-- What the catalog lists. -/
theorem NodeCatalog.lists_parse {raw : Bytes} {nodes : List ProxyNode}
    (h : NodeCatalog.parse crates raw = .ok nodes) : Lists nodes :=
  lists_parseTextWith (fun _ _ => lists_parseEncoded) h

/-! ## What is known of a listed node -/

structure Listed (node : ProxyNode) : Prop where
  type : Typed node
  network : oneOf node.network ["tcp", "ws", "httpupgrade"]
  cipher : oneOf node.typeName ["ss"] →
    ssSupportedCipher (trim (node.cipher.getD "aes-256-gcm".toList))
  plugin : oneOf node.typeName ["ss"] → NodeFilter.ssPluginOk node

theorem network_normalizeNetwork (n : ProxyNode) :
    oneOf (normalizeNetwork n).network ["tcp", "ws", "httpupgrade"] := by
  simp only [normalizeNetwork]
  split
  · rfl
  · next h =>
      show oneOf (if oneOf (wsName (toLower (trim n.network))) ["ws"] then _ else _) _
      split
      · next hws =>
          rw [oneOf, List.any_cons, List.any_nil, Bool.or_false, decide_eq_true_eq] at hws
          rw [hws]
          rfl
      · rfl

theorem accept_ss {n : ProxyNode} (h : NodeFilter.accept n) (hty : oneOf n.typeName ["ss"]) :
    ssSupportedCipher (trim (n.cipher.getD "aes-256-gcm".toList)) ∧ NodeFilter.ssPluginOk n := by
  rw [oneOf, List.any_cons, List.any_nil, Bool.or_false, decide_eq_true_eq] at hty
  have htype : normalizeType n.typeName = "ss".toList := by
    rw [hty]
    decide
  simp only [NodeFilter.accept, htype] at h
  split at h
  · cases h
  · split at h
    · cases h
    · have hss : (NodeFilter.filled n.password &&
          ssSupportedCipher (trim (n.cipher.getD "aes-256-gcm".toList)) &&
          NodeFilter.ssPluginOk n) = true := h
      rw [Bool.and_eq_true, Bool.and_eq_true] at hss
      exact ⟨hss.1.2, hss.2⟩

theorem listed_of_lists {nodes : List ProxyNode} (h : Lists nodes) : ∀ node ∈ nodes, Listed node := by
  obtain ⟨read, rfl, hread⟩ := h
  intro node hnode
  obtain ⟨n', hn', rfl⟩ := List.mem_map.mp hnode
  obtain ⟨n, hn, rfl⟩ := List.mem_map.mp hn'
  obtain ⟨hmem, haccept⟩ := List.mem_filter.mp hn
  have hlisted : Listed (normalizeNetwork n) := by
    have hfields : (normalizeNetwork n).typeName = n.typeName ∧
        (normalizeNetwork n).cipher = n.cipher ∧ (normalizeNetwork n).plugin = n.plugin := by
      simp only [normalizeNetwork]
      split <;> exact ⟨rfl, rfl, rfl⟩
    obtain ⟨htype, hcipher, hplugin⟩ := hfields
    refine ⟨?_, network_normalizeNetwork n, ?_, ?_⟩
    · rw [Typed, htype]
      exact hread n hmem
    · rw [htype, hcipher]
      exact fun hty => (accept_ss haccept hty).1
    · rw [htype, NodeFilter.ssPluginOk, hplugin]
      exact fun hty => (accept_ss haccept hty).2
  rw [normalizeSsPlugin]
  split
  · exact hlisted
  · exact ⟨hlisted.type, rfl, hlisted.cipher, fun _ => rfl⟩

end Config

end RustClash
