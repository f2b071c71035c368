import Inet256.Dns256.Message

/-!
# Path resolution

A resolver asks authorities, each for the part of the path below its own, and
follows their redirects until one of them answers.  The authorities still to be
asked are kept on a stack; the number of lookups is limited.  A decoder that
panics on a record ends the resolution, and the process with it.
-/

namespace Inet256.Dns256

open Inet256.Foundation
open Inet256.Foundation.Json (isText stringBytes)

variable {L : Type}

/-- Lookup functions are known by what they ask, a value of type `L`. -/
structure Authority (L : Type) where
  path : Path
  lookup : L
  ttl : UInt32

structure Resolver (L : Type) where
  codecs : Codecs
  roots : List (Authority L)
  makeLookup : Record → Go L
  /-- How a lookup function is printed. -/
  showLookup : L → String

/-- Lookups at other nodes; the lookup function is known by the node's address. -/
def newINET256Root (peer : Addr) : Authority Addr := ⟨[], peer, 0⟩

def newINET256Parser (C : Codecs) (record : Record) : Go Addr := record.asINET256 C "target"

structure ResolveConfig where
  maxHops : Int

abbrev ResolveOpt := ResolveConfig → ResolveConfig

def withMaxHops (n : Int) : ResolveOpt := fun c => { c with maxHops := n }

def resolveConfig (opts : List ResolveOpt) : ResolveConfig :=
  opts.foldl (fun config opt => opt config) ⟨32⟩

structure Lookup (L : Type) where
  target : Authority L
  request : Request

/-- What the servers answer, which may depend on all that was asked before. -/
abbrev World (L : Type) := List (Lookup L) → L → Request → Except String Response

structure Resolved (L : Type) where
  result : Go (List Claim)
  lookups : List (Lookup L)

/-- `fmt.Sprint` of a path. -/
def showPath (path : Path) : String := "[" ++ " ".intercalate (path.map showBytes) ++ "]"

namespace Resolver

def showAuthority (r : Resolver L) (a : Authority L) : String :=
  "\x7b" ++ showPath a.path ++ " " ++ r.showLookup a.lookup ++ " " ++ toString a.ttl ++ "\x7d"

/-- The sources after the claims of a redirect, the last of them on top. -/
def redirect (r : Resolver L) (q2 : Query) (target : Authority L) :
    List Claim → List (Authority L) → Go (List (Authority L))
  | [], sources => .ok sources
  | c :: claims, sources => do
      let pre ← c.record.asPath r.codecs "path"
      if !hasPrefix q2.path pre then
        fail s!"invalid redirect {showPath pre} from {r.showAuthority target}"
      else
        match r.makeLookup c.record with
        | .error (.error _) => redirect r q2 target claims sources
        | .error (.panic text) => crash text
        | .ok lookup =>
            redirect r q2 target claims (⟨concat [target.path, pre], lookup, c.ttl⟩ :: sources)

def request (q : Query) (target : Authority L) : Request :=
  ⟨RequestID.zero, { path := trimPrefix q.path target.path, filter := q.filter }⟩

/-- The loop with the hops that are left and the stack, its top first. -/
def loop (r : Resolver L) (world : World L) (q : Query) :
    Nat → List (Authority L) → List (Lookup L) → Resolved L
  | _, [], log => ⟨.ok [], log⟩
  | 0, _ :: _, log => ⟨fail "max hops exceeded", log⟩
  | hops + 1, target :: sources, log =>
      let req := request q target
      let asked := log ++ [⟨target, req⟩]
      match world log target.lookup req with
      | .error err => ⟨fail err, asked⟩
      | .ok res =>
          if !res.isRedirect then ⟨.ok res.claims, asked⟩
          else
            match r.redirect req.query target res.claims sources with
            | .error fault => ⟨.error fault, asked⟩
            | .ok sources => r.loop world q hops sources asked

def resolve (r : Resolver L) (world : World L) (q : Query) (opts : List ResolveOpt) : Resolved L :=
  r.loop world q (resolveConfig opts).maxHops.toNat r.roots.reverse []

end Resolver

/-! ## Authorities and the names under them -/

/-- The authority is asked for the rest of a path that is under it. -/
def Lookup.Proper (q : Query) (l : Lookup L) : Prop :=
  l.target.path <+: q.path ∧ l.target.path ++ l.request.query.path = q.path

theorem proper_request {q : Query} {target : Authority L} (h : target.path <+: q.path) :
    Lookup.Proper q ⟨target, Resolver.request q target⟩ :=
  ⟨h, append_trimPrefix_iff.mpr h⟩

namespace Resolver

variable {r : Resolver L} {world : World L} {q : Query}

/-- A redirect adds authorities under the one that gave it, and leaves the others below them. -/
theorem redirect_eq_ok {target : Authority L} (hproper : target.path <+: q.path)
    {claims : List Claim} {sources sources' : List (Authority L)}
    (h : r.redirect (request q target).query target claims sources = .ok sources') :
    ∃ added, sources' = added ++ sources ∧ ∀ a ∈ added, a.path <+: q.path := by
  induction claims generalizing sources with
  | nil =>
      cases h
      exact ⟨[], rfl, by simp⟩
  | cons c claims ih =>
      obtain ⟨pre, -, h⟩ := Go.bind_eq_ok.mp h
      split at h
      · cases h
      · next hpre =>
          have hpre : pre <+: trimPrefix q.path target.path := by
            simpa [hasPrefix_iff, request] using hpre
          split at h
          · exact ih h
          · cases h
          · next lookup _ =>
              obtain ⟨added, rfl, hadded⟩ := ih h
              refine ⟨added ++ [⟨concat [target.path, pre], lookup, c.ttl⟩], by simp, ?_⟩
              intro a ha
              rcases List.mem_append.mp ha with ha | ha
              · exact hadded a ha
              · rw [List.mem_singleton.mp ha, concat_pair, ← append_trimPrefix_iff.mpr hproper]
                exact (List.prefix_append_right_inj _).mpr hpre

/-- A round makes one lookup, which is the last one or has led to a redirect. -/
theorem loop_round (hops : Nat) (target : Authority L) (sources : List (Authority L))
    (log : List (Lookup L)) :
    (∃ result, r.loop world q (hops + 1) (target :: sources) log =
      ⟨result, log ++ [⟨target, request q target⟩]⟩) ∨
    ∃ claims sources', r.redirect (request q target).query target claims sources = .ok sources' ∧
      r.loop world q (hops + 1) (target :: sources) log =
        r.loop world q hops sources' (log ++ [⟨target, request q target⟩]) := by
  rw [loop]
  split
  · exact Or.inl ⟨_, rfl⟩
  · next res _ =>
      split
      · exact Or.inl ⟨_, rfl⟩
      · split
        · exact Or.inl ⟨_, rfl⟩
        · next sources' hredirect => exact Or.inr ⟨res.claims, sources', hredirect, rfl⟩

theorem loop_proper {hops : Nat} {sources : List (Authority L)} {log : List (Lookup L)}
    (hsources : ∀ a ∈ sources.take hops, a.path <+: q.path)
    (hlog : ∀ l ∈ log, Lookup.Proper q l) :
    ∀ l ∈ (r.loop world q hops sources log).lookups, Lookup.Proper q l := by
  induction hops generalizing sources log with
  | zero => cases sources <;> simpa [loop] using hlog
  | succ hops ih =>
      cases sources with
      | nil => simpa [loop] using hlog
      | cons target sources =>
          rw [List.take_succ_cons, List.forall_mem_cons] at hsources
          obtain ⟨htarget, hrest⟩ := hsources
          have hasked : ∀ l ∈ log ++ [⟨target, request q target⟩], Lookup.Proper q l := by
            intro l hl
            rcases List.mem_append.mp hl with hl | hl
            · exact hlog l hl
            · rw [List.mem_singleton.mp hl]
              exact proper_request htarget
          rcases loop_round hops target sources log with ⟨result, hround⟩ |
            ⟨claims, sources', hredirect, hround⟩
          · rw [hround]
            exact hasked
          · obtain ⟨added, rfl, hadded⟩ := redirect_eq_ok htarget hredirect
            rw [hround]
            apply ih _ hasked
            intro a ha
            rw [List.take_append] at ha
            rcases List.mem_append.mp ha with ha | ha
            · exact hadded a (List.mem_of_mem_take ha)
            · exact hrest a (List.take_subset_take_left _ (Nat.sub_le _ _) ha)

/-- Servers that redirect nowhere let the resolver ask one root after the other. -/
def silent : World L := fun _ _ _ => .ok ⟨RequestID.zero, true, []⟩

theorem lookups_loop_silent (hops : Nat) (sources : List (Authority L)) (log : List (Lookup L)) :
    (r.loop silent q hops sources log).lookups =
      log ++ (sources.take hops).map fun a => ⟨a, request q a⟩ := by
  induction hops generalizing sources log with
  | zero => cases sources <;> simp [loop]
  | succ hops ih =>
      cases sources with
      | nil => simp [loop]
      | cons target sources => simp [loop, silent, redirect, ih]

/--
Whatever the servers answer, only authorities for a prefix of the path are asked, exactly if the
roots that can be asked within the hops are.
-/
theorem lookups_proper_iff (r : Resolver L) (q : Query) (opts : List ResolveOpt) :
    (∀ world, ∀ l ∈ (r.resolve world q opts).lookups, l.Proper q) ↔
      ∀ root ∈ r.roots.reverse.take (resolveConfig opts).maxHops.toNat, root.path <+: q.path := by
  constructor
  · intro h root hroot
    have hlookups := h silent
    rw [resolve, lookups_loop_silent, List.nil_append] at hlookups
    exact (hlookups _ (List.mem_map_of_mem hroot)).1
  · intro h world
    exact loop_proper h (by simp)

end Resolver

/-! ### A root for another name -/

def samplePathCodec : PathCodec where
  marshal := Json.writeArray
  unmarshal data :=
    match Json.readArray data with
    | some path => .ok path
    | none => fail "invalid array of strings"
  unmarshal_marshal path _ := by rw [Json.readArray_writeArray]

def sampleCodecs : Codecs := ⟨samplePathCodec, Json.array 32⟩

def anyRecord : Predicate := .mk none none none none

def sampleRoot : Authority Addr := ⟨[stringBytes "com"], copyTo 32 [1], 300⟩

def sampleResolver : Resolver Addr where
  codecs := sampleCodecs
  roots := [sampleRoot]
  makeLookup := newINET256Parser sampleCodecs
  showLookup := fun _ => "0x0"

/-- The root for `com` is asked for all of `org.inet256`. -/
theorem root_asked_for_other_name :
    let q : Query := ⟨[stringBytes "org", stringBytes "inet256"], anyRecord⟩
    let world : World Addr := fun _ _ _ => .ok Response.zero
    ∃ l ∈ (sampleResolver.resolve world q []).lookups,
      l.target = sampleRoot ∧ l.request.query.path = q.path ∧ ¬ l.Proper q := by
  intro q world
  refine ⟨⟨sampleRoot, Resolver.request q sampleRoot⟩, List.mem_singleton_self _, rfl,
    by decide +kernel, ?_⟩
  intro h
  have hpre : hasPrefix q.path sampleRoot.path = true := hasPrefix_iff.mpr h.1
  exact absurd hpre (by decide +kernel)

/-! ## Chains of redirects -/

def chainStart (last : L) : List (L × Path) → L
  | [] => last
  | (server, _) :: _ => server

/-- Each server redirects what is under its prefix to the next one; the last one answers. -/
def Chain (r : Resolver L) (world : World L) (last : L) : List (L × Path) → Prop
  | [] => ∀ log req, ∃ res, world log last req = .ok res ∧ res.isRedirect = false
  | (server, pre) :: hops =>
      (∀ log req, pre <+: req.query.path → ∃ res record ttl, world log server req = .ok res ∧
        res.isRedirect = true ∧ res.claims = [⟨record, ttl⟩] ∧
        record.asPath r.codecs "path" = .ok pre ∧
        r.makeLookup record = .ok (chainStart last hops)) ∧
      Chain r world last hops

/-- Every server of the chain in turn, with the part of the path that is left there. -/
def chainQueries (q : Query) (rest : Path) (last : L) (hops : List (L × Path)) :
    List (L × Query) :=
  List.zip (hops.map Prod.fst ++ [last])
    ((hops.map Prod.snd).tails.map fun left => { path := left.flatten ++ rest, filter := q.filter })

namespace Resolver

variable {r : Resolver L} {world : World L} {q : Query} {last : L} {hops : List (L × Path)}
  {rest : Path}

theorem request_append {base left : Path} (lookup : L) (ttl : UInt32)
    (hpath : q.path = base ++ left) :
    request q ⟨base, lookup, ttl⟩ = ⟨RequestID.zero, left, q.filter⟩ := by
  simp [request, hpath, trimPrefix_append]

/-- One hop of the chain: the next server is the only source, for a longer path. -/
theorem loop_hop {server : L} {pre : Path} (hchain : Chain r world last ((server, pre) :: hops))
    {base left : Path} (ttl : UInt32) (hpath : q.path = base ++ (pre ++ left)) (n : Nat)
    (log : List (Lookup L)) :
    ∃ ttl', r.loop world q (n + 1) [⟨base, server, ttl⟩] log =
      r.loop world q n [⟨base ++ pre, chainStart last hops, ttl'⟩]
        (log ++ [⟨⟨base, server, ttl⟩, request q ⟨base, server, ttl⟩⟩]) := by
  have hrequest := request_append server ttl hpath
  obtain ⟨res, record, ttl', hres, hredirect, hclaims, hrecord, hlookup⟩ :=
    hchain.1 log ⟨RequestID.zero, pre ++ left, q.filter⟩ (List.prefix_append pre left)
  have hpre : hasPrefix (pre ++ left) pre = true :=
    hasPrefix_iff.mpr (List.prefix_append pre left)
  refine ⟨ttl', ?_⟩
  rw [loop]
  simp only [hrequest, hres, hredirect, hclaims]
  simp [redirect, hrecord, hpre, hlookup, Go.ok_bind]

/-- From any server of the chain on, with hops enough to reach its end. -/
theorem loop_chain (hchain : Chain r world last hops) (base : Path) (ttl : UInt32)
    (hpath : q.path = base ++ ((hops.map Prod.snd).flatten ++ rest)) {n : Nat}
    (hn : hops.length < n) (log : List (Lookup L)) :
    ∃ asked final res, r.loop world q n [⟨base, chainStart last hops, ttl⟩] log =
        ⟨.ok res.claims, log ++ (asked ++ [final])⟩ ∧
      (asked ++ [final]).map (fun l => (l.target.lookup, l.request.query)) =
        chainQueries q rest last hops ∧
      world (log ++ asked) last final.request = .ok res := by
  obtain ⟨n, rfl⟩ : ∃ m, n = m + 1 := ⟨n - 1, by omega⟩
  induction hops generalizing base ttl n log with
  | nil =>
      have hrequest := request_append last ttl hpath
      obtain ⟨res, hres, hanswer⟩ := hchain log ⟨RequestID.zero, rest, q.filter⟩
      refine ⟨[], ⟨⟨base, last, ttl⟩, request q ⟨base, last, ttl⟩⟩, res, ?_, ?_, ?_⟩
      · rw [loop]
        simp [chainStart, hrequest, hres, hanswer]
      · simp [chainQueries, hrequest]
      · simpa [hrequest] using hres
  | cons hop hops ih =>
      obtain ⟨server, pre⟩ := hop
      have hsplit : q.path = base ++ (pre ++ ((hops.map Prod.snd).flatten ++ rest)) := by
        simpa using hpath
      have hrequest := request_append server ttl hsplit
      obtain ⟨ttl', hhop⟩ := loop_hop hchain ttl hsplit n log
      obtain ⟨m, rfl⟩ : ∃ m, n = m + 1 := ⟨n - 1, by simp at hn; omega⟩
      obtain ⟨asked, final, res, hloop, hqueries, hres⟩ := ih hchain.2 (base ++ pre) ttl'
        (by simpa using hsplit) (log ++ [⟨⟨base, server, ttl⟩, request q ⟨base, server, ttl⟩⟩]) m
        (by simpa using hn)
      refine ⟨⟨⟨base, server, ttl⟩, request q ⟨base, server, ttl⟩⟩ :: asked, final, res, ?_, ?_, ?_⟩
      · rw [chainStart, hhop, hloop]
        simp
      · rw [List.cons_append, List.map_cons, hqueries, hrequest]
        simp [chainQueries]
      · simpa using hres

theorem loop_chain_short (hchain : Chain r world last hops) (base : Path) (ttl : UInt32)
    (hpath : q.path = base ++ ((hops.map Prod.snd).flatten ++ rest)) {n : Nat}
    (hn : n ≤ hops.length) (log : List (Lookup L)) :
    (r.loop world q n [⟨base, chainStart last hops, ttl⟩] log).result =
      fail "max hops exceeded" := by
  induction hops generalizing base ttl n log with
  | nil =>
      obtain rfl : n = 0 := by simpa using hn
      rfl
  | cons hop hops ih =>
      obtain ⟨server, pre⟩ := hop
      cases n with
      | zero => rfl
      | succ n =>
          have hsplit : q.path = base ++ (pre ++ ((hops.map Prod.snd).flatten ++ rest)) := by
            simpa using hpath
          obtain ⟨ttl', hhop⟩ := loop_hop hchain ttl hsplit n log
          rw [chainStart, hhop]
          exact ih hchain.2 (base ++ pre) ttl' (by simpa using hsplit) (by simpa using hn) _

/--
Within the hops every server of the chain is asked once, in order, for what is left of the path,
and the answer is that of the last one; with fewer hops there is an error.
-/
def FollowsChain (r : Resolver L) (world : World L) (q : Query) (rest : Path) (last : L)
    (hops : List (L × Path)) (opts : List ResolveOpt) : Prop :=
  ((hops.length : Int) + 1 ≤ (resolveConfig opts).maxHops →
    ∃ asked final res, r.resolve world q opts = ⟨.ok res.claims, asked ++ [final]⟩ ∧
      (asked ++ [final]).map (fun l => (l.target.lookup, l.request.query)) =
        chainQueries q rest last hops ∧
      world asked last final.request = .ok res) ∧
  ((resolveConfig opts).maxHops < (hops.length : Int) + 1 →
    ∃ err, (r.resolve world q opts).result = fail err)

theorem resolve_follows_chain (r : Resolver L) (world : World L) (last : L)
    (hops : List (L × Path)) (ttl : UInt32)
    (hroots : r.roots = [⟨[], chainStart last hops, ttl⟩]) (hchain : Chain r world last hops)
    (q : Query) (rest : Path) (hpath : q.path = (hops.map Prod.snd).flatten ++ rest)
    (opts : List ResolveOpt) : r.FollowsChain world q rest last hops opts := by
  have hstart : r.roots.reverse = [⟨[], chainStart last hops, ttl⟩] := by simp [hroots]
  constructor
  · intro henough
    have hn : hops.length < (resolveConfig opts).maxHops.toNat := by omega
    rw [resolve, hstart]
    simpa using loop_chain hchain [] ttl hpath hn []
  · intro hfew
    have hn : (resolveConfig opts).maxHops.toNat ≤ hops.length := by omega
    refine ⟨"max hops exceeded", ?_⟩
    rw [resolve, hstart]
    exact loop_chain_short hchain [] ttl hpath hn []

end Resolver

/-! ### A chain of simple servers -/

/-- Nodes that serve with simple handlers, and a network that loses nothing. -/
def handlersWorld (C : Codecs) (handlers : Addr → BasicHandler) : World Addr :=
  fun _ addr req => .ok ((handlers addr).handle C Response.zero req).1

/-- Each handler has the one redirect to the next server; the last has none. -/
def HandlerChain (handlers : Addr → BasicHandler) (last : Addr) : List (Addr × Path) → Prop
  | [] => (handlers last).redirects = []
  | (server, pre) :: hops =>
      (handlers server).redirects = [⟨pre, chainStart last hops⟩] ∧ HandlerChain handlers last hops

theorem chain_of_handlers {r : Resolver Addr} (hparser : r.makeLookup = newINET256Parser r.codecs)
    {handlers : Addr → BasicHandler} {last : Addr} {hops : List (Addr × Path)}
    (htext : ∀ hop ∈ hops, ∀ element ∈ hop.2, isText element = true)
    (h : HandlerChain handlers last hops) :
    Chain r (handlersWorld r.codecs handlers) last hops := by
  induction hops with
  | nil =>
      intro log req
      exact ⟨_, rfl, BasicHandler.handle_records r.codecs h req⟩
  | cons hop hops ih =>
      obtain ⟨server, pre⟩ := hop
      obtain ⟨hredirects, hrest⟩ := h
      rw [List.forall_mem_cons] at htext
      refine ⟨fun log req hpre => ?_, ih htext.2 hrest⟩
      obtain ⟨ttl, hhandle⟩ := BasicHandler.handle_redirect r.codecs hredirects hpre
      refine ⟨_, _, ttl, congrArg Except.ok hhandle, rfl, rfl,
        asPath_toRecord r.codecs htext.1, ?_⟩
      rw [hparser, newINET256Parser, asINET256_toRecord]

def sampleServer (i : UInt8) : Addr := copyTo 32 [i]

def sampleHandlers (addr : Addr) : BasicHandler :=
  if addr = sampleServer 1 then ⟨[⟨[stringBytes "a"], sampleServer 2⟩], [], 0⟩
  else if addr = sampleServer 2 then ⟨[⟨[stringBytes "b"], sampleServer 3⟩], [], 0⟩
  else ⟨[], [RedirectINET256.toRecord sampleCodecs ⟨[stringBytes "c"], sampleServer 4⟩], 0⟩

def sampleHops : List (Addr × Path) :=
  [(sampleServer 1, [stringBytes "a"]), (sampleServer 2, [stringBytes "b"])]

def sampleChainQuery : Query :=
  ⟨[stringBytes "a", stringBytes "b", stringBytes "c"], anyRecord⟩

def sampleChainResolver : Resolver Addr where
  codecs := sampleCodecs
  roots := [newINET256Root (sampleServer 1)]
  makeLookup := newINET256Parser sampleCodecs
  showLookup := fun _ => "0x0"

theorem resolve_follows_chain_of_three :
    sampleChainResolver.FollowsChain (handlersWorld sampleCodecs sampleHandlers)
      sampleChainQuery [stringBytes "c"] (sampleServer 3) sampleHops [] :=
  Resolver.resolve_follows_chain sampleChainResolver (handlersWorld sampleCodecs sampleHandlers)
    (sampleServer 3) sampleHops 0 rfl (chain_of_handlers rfl (by decide +kernel) ⟨rfl, rfl, rfl⟩)
    sampleChainQuery [stringBytes "c"] rfl []

end Inet256.Dns256
