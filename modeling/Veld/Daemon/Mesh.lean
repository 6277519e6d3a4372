import Veld.Daemon.Routes

/-!
# The mesh and the routes of the peers

The order in which `internal/daemon/daemon.go` brings up the TUN and installs
routes. A route is checked against the TUN that is up when the peer is added. In
static mode that is none: `NewFromConfig` installs the routes of the configured
peers first. With a coordinator a TUN may come up or be replaced after peers
have joined. So a TUN that comes up must find no route in its way, and nothing
else can bring one about.
-/

namespace Veld

open Netip Peer Coord Route

/-- A `PeerConfig`. -/
structure PeerConfig where
  name : String
  vpnAddr : String
  ed25519Public : String
  x25519Public : String
  endpoint : String
  subnetRoutes : List String

/-- The settings that decide about the TUN and the routes. -/
structure Config where
  /-- `node.vpn_addr`. -/
  vpnAddr : String
  /-- `coord.addr`, empty in static mode. -/
  coordAddr : String
  peers : List PeerConfig

/-- The errors of `NewFromConfig` and `buildPeerTable`, with the names of the peers. -/
inductive ConfigError
  | invalidVPNAddr
  | invalidEd25519Public (name : String)
  | invalidX25519Public (name : String)
  | invalidPeerVPNAddr (name : String)
  | invalidSubnetRoute (name route : String)
  | vpnAddrUsed (name : String) (vpnAddr : Addr)
  | createTUN
  deriving DecidableEq

/-- What happens around the daemon while it starts. -/
structure Startup where
  /-- The order in which the peer table is listed. -/
  order : List Entry → List Entry
  /-- The netlink calls that succeed. -/
  up : Entry → Prefix → Bool
  /-- The TUN can be created. -/
  created : Bool

namespace DaemonCodec

variable (cd : DaemonCodec)

/-- The routes of a configured peer; unlike those of a reported one they must all be well formed. -/
def subnetRoutes (name : String) : List String → Except ConfigError (List Prefix)
  | [] => .ok []
  | r :: rs =>
    match cd.parsePrefix r with
    | none => .error (.invalidSubnetRoute name r)
    | some pfx => (subnetRoutes name rs).map (pfx :: ·)

/-- The entry of a configured peer. -/
def peerFromConfig (pc : PeerConfig) : Except ConfigError Entry :=
  match cd.decodeKey pc.ed25519Public, cd.decodeKey pc.x25519Public, cd.parseAddr pc.vpnAddr with
  | none, _, _ => .error (.invalidEd25519Public pc.name)
  | _, none, _ => .error (.invalidX25519Public pc.name)
  | _, _, none => .error (.invalidPeerVPNAddr pc.name)
  | some id, some x25519Pub, some vpnAddr =>
    (cd.subnetRoutes pc.name pc.subnetRoutes).map fun subnetRoutes =>
      { id, x25519Pub, vpnAddr, name := pc.name, subnetRoutes
        endpoint := cd.endpointOf pc.endpoint }

/-- `buildPeerTable` over a new table. -/
def buildPeerTable (tbl : Client) (peerCfgs : List PeerConfig) : Except ConfigError Client :=
  peerCfgs.foldlM (fun tbl pc => do
    let e ← cd.peerFromConfig pc
    if tbl.takes cd.toCodec e then .ok (tbl.join cd.toCodec e)
    else .error (.vpnAddrUsed pc.name e.vpnAddr)) tbl

/-- The prefix of the own address, invalid if none is configured. -/
def vpnPrefix (vpnAddr : String) : Except ConfigError Prefix :=
  if vpnAddr = "" then .ok .zero
  else match cd.parsePrefix vpnAddr with
  | some pfx => .ok pfx
  | none => .error .invalidVPNAddr

/-- `deriveMeshPrefix`. -/
def deriveMeshPrefix (vpnAddr : Addr) (networkCIDR : String) : Prefix :=
  if networkCIDR = "" then .prefixFrom vpnAddr 24
  else match cd.parsePrefix networkCIDR with
  | none => .prefixFrom vpnAddr 24
  | some netCIDR => .prefixFrom vpnAddr netCIDR.bits

end DaemonCodec

/-- `List` of the peer table, in the order of its entries. -/
def Coord.Client.list (c : Client) : List Entry := (values c.table.byID).map c.table.entry

namespace Daemon

variable (cd : DaemonCodec)

/-- The routes of the configured peers. -/
def addStaticRoutes (env : Startup) (d : Daemon) : Daemon :=
  (env.order d.client.list).foldl (fun d e => d.addPeerRoutes cd (env.up e) e) d

/-- `NewFromConfig`, as far as it is about the peer table, the routes and the TUN. -/
def newFromConfig (env : Startup) (tbl : Client) (cfg : Config) : Except ConfigError Daemon := do
  let vpnPrefix ← cd.vpnPrefix cfg.vpnAddr
  let client ← cd.buildPeerTable tbl cfg.peers
  let d : Daemon := { client }
  if cfg.coordAddr = "" then
    let d := d.addStaticRoutes cd env
    if vpnPrefix.isValid then
      if env.created then .ok { d with tunDev := some ⟨vpnPrefix.ip, vpnPrefix⟩ }
      else .error .createTUN
    else .ok d
  else .ok d

/-- The TUN for an assigned address. -/
def assignedTUN (vpnAddr : Addr) (networkCIDR : String) : TunDev :=
  ⟨vpnAddr.withoutZone, cd.deriveMeshPrefix vpnAddr networkCIDR⟩

/-- The TUN is up with the assigned address. -/
def hasAddr (d : Daemon) (vpnAddr : Addr) : Bool := d.tunDev.any (·.addr = vpnAddr)

/-- `onVPNAddrAssigned`: the old TUN stays if the new one cannot be created. -/
def onVPNAddrAssigned (d : Daemon) (vpnAddr : Addr) (networkCIDR : String) (created : Bool) :
    Daemon :=
  if d.hasAddr vpnAddr then d
  else if created then { d with tunDev := some (assignedTUN cd vpnAddr networkCIDR) }
  else d

/-- What the coordinator's client tells the daemon. -/
inductive Notice
  | assigned (vpnAddr : Addr) (networkCIDR : String) (created : Bool)
  | event (up : Prefix → Bool) (myID : String) (ev : PeerEvent)

def notify (d : Daemon) : Notice → Daemon
  | .assigned vpnAddr networkCIDR created => d.onVPNAddrAssigned cd vpnAddr networkCIDR created
  | .event up myID ev => d.handleEvent cd up myID ev

/-- No route of the kernel overlaps a prefix. -/
def Clear (d : Daemon) (mesh : Prefix) : Prop :=
  ∀ dst gw, d.routeMgr.kernel.lookup dst = some gw → dst.overlaps mesh.masked = false

/-- No installed route overlaps the prefix of the TUN. -/
def Uncovered (d : Daemon) : Prop := ∀ tun, d.tunDev = some tun → d.Clear tun.net

/-- A TUN that comes up finds no route in its way. -/
def Unobstructed (d : Daemon) : Notice → Prop
  | .assigned vpnAddr networkCIDR created =>
    d.hasAddr vpnAddr = false → created = true → d.Clear (cd.deriveMeshPrefix vpnAddr networkCIDR)
  | .event _ _ _ => True

variable {cd} {d : Daemon} {up : Prefix → Bool} {e : Entry} {mesh dst : Prefix}

/-- The routes of a peer avoid the mesh they are checked against. -/
theorem Clear.addPeerRoutes (h : d.Clear mesh)
    (he : ∀ pfx ∈ e.subnetRoutes, Accepts cd.prefixString d.mesh pfx → up pfx = true →
      pfx.overlaps mesh.masked = false) : (d.addPeerRoutes cd up e).Clear mesh := by
  intro dst gw hgw
  rw [Daemon.addPeerRoutes, Manager.lookup_kernel_addAll] at hgw
  split at hgw
  · rename_i hex
    obtain ⟨pfx, hpfx, ⟨hok, hup⟩, rfl⟩ := hex
    rw [Prefix.overlaps_masked]
    exact he pfx hpfx hok hup
  · exact h dst gw hgw

theorem Uncovered.addPeerRoutes (h : d.Uncovered) : (d.addPeerRoutes cd up e).Uncovered := by
  intro tun htun
  have htun : d.tunDev = some tun := htun
  have hmesh : d.mesh = tun.net := by simp only [Daemon.mesh, htun]
  refine (h tun htun).addPeerRoutes fun pfx _ hok _ => ?_
  rw [hmesh] at hok
  exact hok.not_overlaps

theorem Uncovered.onPeerRemoved (h : d.Uncovered) (id : PeerID) :
    (d.onPeerRemoved up id).Uncovered := by
  unfold Daemon.onPeerRemoved
  split
  · intro tun htun dst gw hgw
    exact h tun htun dst gw (Manager.lookup_kernel_of_removeAll hgw)
  · exact h

/-- Events never bring a route into the mesh. -/
theorem Uncovered.handleEvent (h : d.Uncovered) (up : Prefix → Bool) (myID : String)
    (ev : PeerEvent) : (d.handleEvent cd up myID ev).Uncovered := by
  rw [handleEvent_eq]
  split
  · rename_i e _
    have hjoined : ({ d with client := d.client.join cd.toCodec e } : Daemon).Uncovered := h
    simp only
    split
    · exact hjoined.addPeerRoutes
    · exact hjoined
  · exact h.onPeerRemoved _
  · exact h

/-- Only a TUN that comes up can run into a route. -/
theorem Uncovered.notify_iff (h : d.Uncovered) (i : Notice) :
    (d.notify cd i).Uncovered ↔ d.Unobstructed cd i := by
  cases i with
  | event up myID ev => exact iff_of_true (h.handleEvent up myID ev) trivial
  | assigned vpnAddr networkCIDR created =>
    rw [notify, Unobstructed, onVPNAddrAssigned]
    cases hhas : d.hasAddr vpnAddr with
    | true => simpa using h
    | false =>
      cases created with
      | false => simpa using h
      | true =>
        simp only [Bool.false_eq_true, ite_false, ite_true, true_implies]
        constructor
        · intro hnew
          exact hnew _ rfl
        · rintro hclear tun htun
          obtain rfl := Option.some.inj htun
          exact hclear

/-- The mesh stays clear along a run exactly if every TUN comes up unobstructed. -/
theorem Uncovered.run_iff (h : d.Uncovered) (is : List Notice) :
    (∀ past, past <+: is → (run (notify cd) d past).Uncovered) ↔
      Along (notify cd) (Unobstructed cd) d is := by
  constructor
  · intro hall
    induction is using List.reverseRecOn with
    | nil => exact along_nil
    | append_singleton is i ih =>
      have hpast := hall is (List.prefix_append is [i])
      refine along_snoc.mpr ⟨ih fun past hp => hall past (hp.trans (List.prefix_append is [i])), ?_⟩
      have hlast := hall _ (List.prefix_refl _)
      rw [run_snoc] at hlast
      exact (hpast.notify_iff i).mp hlast
  · rintro halong past ⟨rest, rfl⟩
    exact (along_append.mp halong).1.keeps Uncovered h fun d i hd hi => (hd.notify_iff i).mpr hi

/-- The routes of several peers, added one after the other. -/
theorem isSome_lookup_kernel_foldl {up : Entry → Prefix → Bool} (es : List Entry) :
    ((es.foldl (fun d e => d.addPeerRoutes cd (up e) e) d).routeMgr.kernel.lookup dst).isSome ↔
      (∃ e ∈ es, ∃ pfx ∈ e.subnetRoutes,
        (Accepts cd.prefixString d.mesh pfx ∧ up e pfx = true) ∧ pfx.masked = dst) ∨
      (d.routeMgr.kernel.lookup dst).isSome := by
  induction es generalizing d with
  | nil => simp
  | cons e es ih =>
    have hmesh : (d.addPeerRoutes cd (up e) e).mesh = d.mesh := rfl
    simp only [List.mem_cons, exists_eq_or_imp]
    rw [List.foldl_cons, ih, hmesh, or_assoc, or_left_comm]
    refine or_congr_right ?_
    rw [Daemon.addPeerRoutes, Manager.lookup_kernel_addAll]
    split
    · rename_i hex
      exact iff_of_true rfl (.inl hex)
    · rename_i hno
      rw [or_iff_right hno]

theorem client_foldl {up : Entry → Prefix → Bool} (es : List Entry) :
    (es.foldl (fun d e => d.addPeerRoutes cd (up e) e) d).client = d.client := by
  induction es generalizing d with
  | nil => rfl
  | cons e es ih => exact ih

/-- What `NewFromConfig` returns in its two modes. -/
theorem newFromConfig_eq_ok {env : Startup} {tbl : Client} {cfg : Config}
    (h : newFromConfig cd env tbl cfg = .ok d) :
    ∃ client, (cfg.coordAddr ≠ "" → d = { client }) ∧
      (cfg.coordAddr = "" →
        ∃ tunDev, d = { addStaticRoutes cd env { client } with tunDev }) := by
  rw [newFromConfig] at h
  cases hvpn : cd.vpnPrefix cfg.vpnAddr with
  | error err =>
    rw [hvpn] at h
    cases h
  | ok vpnPrefix =>
    cases hclient : cd.buildPeerTable tbl cfg.peers with
    | error err =>
      rw [hvpn, hclient] at h
      cases h
    | ok client =>
      refine ⟨client, ?_⟩
      rw [hvpn, hclient] at h
      by_cases hmode : cfg.coordAddr = ""
      · refine ⟨fun hcoord => absurd hmode hcoord, fun _ => ?_⟩
        simp only [bind, Except.bind, hmode, ite_true] at h
        split at h
        · split at h
          · exact ⟨_, (Except.ok.inj h).symm⟩
          · cases h
        · exact ⟨(addStaticRoutes cd env { client }).tunDev, (Except.ok.inj h).symm⟩
      · refine ⟨fun _ => ?_, fun hstatic => absurd hstatic hmode⟩
        simp only [bind, Except.bind, hmode, ite_false] at h
        exact (Except.ok.inj h).symm

/-- A daemon in static mode has the routes of all its peers that pass without a mesh. -/
theorem isSome_lookup_kernel_static {env : Startup} (horder : ∀ es, (env.order es).Perm es)
    (client : Client) :
    ((addStaticRoutes cd env { client }).routeMgr.kernel.lookup dst).isSome ↔
      ∃ e ∈ client.list, ∃ pfx ∈ e.subnetRoutes,
        (Accepts cd.prefixString .zero pfx ∧ env.up e pfx = true) ∧ pfx.masked = dst := by
  rw [addStaticRoutes, isSome_lookup_kernel_foldl]
  have hstart : ((({ client } : Daemon).routeMgr.kernel.lookup dst).isSome = true) ↔ False := by
    simp
  rw [hstart, or_false]
  simp only [(horder _).mem_iff]
  rfl

/-- Whatever the configuration, in static mode the mesh is clear exactly if no route of a
configured peer that passes without a mesh overlaps it, and with a coordinator it stays clear
exactly if every TUN comes up unobstructed. -/
theorem mesh_uncovered_iff (cd : DaemonCodec) (env : Startup) (tbl : Client) (cfg : Config)
    (d : Daemon) (horder : ∀ es, (env.order es).Perm es)
    (h : newFromConfig cd env tbl cfg = .ok d) :
    (cfg.coordAddr = "" →
      (d.Uncovered ↔ ∀ tun, d.tunDev = some tun → ∀ e ∈ d.client.list, ∀ pfx ∈ e.subnetRoutes,
        Accepts cd.prefixString .zero pfx → env.up e pfx = true →
          pfx.overlaps tun.net.masked = false)) ∧
      (cfg.coordAddr ≠ "" → ∀ is : List Notice,
        (∀ past, past <+: is → (run (notify cd) d past).Uncovered) ↔
          Along (notify cd) (Unobstructed cd) d is) := by
  obtain ⟨client, hcoord, hstatic⟩ := newFromConfig_eq_ok h
  constructor
  · intro hmode
    obtain ⟨tunDev, rfl⟩ := hstatic hmode
    have hclient : (addStaticRoutes cd env { client }).client = client := client_foldl _
    refine forall_congr' fun tun => imp_congr_right fun _ => ?_
    simp only [hclient]
    constructor
    · intro hclear e he pfx hpfx hok hup
      obtain ⟨gw, hgw⟩ := Option.isSome_iff_exists.mp
        ((isSome_lookup_kernel_static horder client).mpr ⟨e, he, pfx, hpfx, ⟨hok, hup⟩, rfl⟩)
      rw [← Prefix.overlaps_masked]
      exact hclear pfx.masked gw hgw
    · intro hall dst gw hgw
      obtain ⟨e, he, pfx, hpfx, ⟨hok, hup⟩, rfl⟩ :=
        (isSome_lookup_kernel_static horder client).mp (Option.isSome_iff_exists.mpr ⟨gw, hgw⟩)
      rw [Prefix.overlaps_masked]
      exact hall e he pfx hpfx hok hup
  · intro hmode is
    obtain rfl := hcoord hmode
    refine Uncovered.run_iff ?_ is
    intro tun htun
    cases htun

end Daemon

namespace Sample

/-- A codec that knows the prefix 10.0.0.1/24 and takes every other text for one route. -/
def meshCodec (route : Prefix) : DaemonCodec where
  decodeString text := some (List.replicate 32 (UInt8.ofNat text.length))
  decodeHex text := some (List.replicate 32 (UInt8.ofNat text.length))
  parseAddrPort _ := none
  parsePrefix text := if text = "10.0.0.1/24" then some tunPrefix else some route
  toLower := id
  prefixString _ := "route"
  parseAddr _ := some (.v4 0x0a000002)

/-- A daemon in static mode with one peer that has one route. -/
def staticConfig : Config where
  vpnAddr := "10.0.0.1/24"
  coordAddr := ""
  peers := [⟨"a", "10.0.0.2", "key", "key", "", ["route"]⟩]

/-- Nothing fails. -/
def smooth : Startup := ⟨id, fun _ _ => true, true⟩

end Sample

namespace Daemon

/-- A configured peer announces the upper half of the mesh: the route 10.0.0.128/25 is installed
beside the TUN 10.0.0.1/24. -/
theorem static_route_covers_mesh :
    ∃ d, newFromConfig (Sample.meshCodec ⟨.v4 0x0a000080, 25, by decide, rfl⟩) Sample.smooth
        Coord.Sample.emptyClient Sample.staticConfig = .ok d ∧ ¬d.Uncovered := by
  refine ⟨_, rfl, fun h => ?_⟩
  have hclear := h ⟨.v4 0x0a000001, Sample.tunPrefix⟩ rfl
    ⟨.v4 0x0a000080, 25, by decide, rfl⟩ (.v4 0x0a000002) (by decide +kernel)
  revert hclear
  decide +kernel

/-- A configured peer announces 192.168.1.0/24. -/
theorem mesh_uncovered_iff_lan :
    ∃ d, newFromConfig (Sample.meshCodec Sample.lan) Sample.smooth Coord.Sample.emptyClient
        Sample.staticConfig = .ok d ∧ d.Uncovered := by
  refine ⟨_, rfl, ?_⟩
  refine ((mesh_uncovered_iff (Sample.meshCodec Sample.lan) Sample.smooth Coord.Sample.emptyClient
    Sample.staticConfig _ (fun _ => List.Perm.refl _) rfl).1 rfl).mpr ?_
  intro tun htun e he pfx hpfx _ _
  obtain rfl := Option.some.inj htun
  revert pfx e
  decide +kernel

end Daemon

end Veld
