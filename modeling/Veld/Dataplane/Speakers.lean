import Veld.Core.Overlap
import Veld.Dataplane.Isolation
import Veld.Peer.Ownership

/-!
# Who may speak for an address

The source check of `handleUDPPacket` over the tables that `Upsert`, `UpdateEndpoint`,
`ClaimEndpoint` and `Remove` can reach. An address of the mesh is one in the prefix of the
TUN or the VPN address of a current peer. Whatever routes the peers advertise, a packet with
such a source is delivered only from the peer that has the address, so that one peer speaks
for it as long as the peers stay the same.
-/

namespace Veld.Dataplane

variable {toLower : String → String} {t : Table}

open Acl Netip Peer

/-- The address lies in the prefix of the TUN or is the VPN address of a current peer. -/
def MeshAddr (d : Dispatcher) (a : Addr) : Prop :=
  (∃ tunPrefix, d.tun = some tunPrefix ∧ tunPrefix.contains a = true) ∨
    ∃ q, Current d.peers q ∧ a = (d.peers.entry q).vpnAddr

/-- The entries and indexes are those of a table that calls on an empty one can reach; sessions,
hold queues and the other fields may be anything. -/
def Reachable (toLower : String → String) (t : Table) : Prop :=
  ∃ entry session ops, (Peers.reached toLower entry session ops).table.SameIndex t

theorem indexed_of_consistent (h : t.Consistent toLower) : t.Indexed where
  endpoint ep r hr := (h.endpoint ep r hr).2
  vpn id r hr hv := h.found id r hr hv

theorem Reachable.indexed (h : Reachable toLower t) : t.Indexed := by
  obtain ⟨entry, session, ops, hsame⟩ := h
  exact (indexed_of_consistent (Peers.sound_reached entry session ops).consistent).sameIndex hsame

namespace Dispatcher

variable {d : Dispatcher} {r : EntryRef} {a : Addr}

/-- What a peer vouches for besides its own address is in its routes, not in the prefix of the TUN
and not the address of another peer. -/
theorem vouches_iff : d.vouches r a = true ↔ a = (d.peers.entry r).vpnAddr ∨
    ((∀ tunPrefix, d.tun = some tunPrefix → tunPrefix.contains a = false) ∧
      (∀ q, d.peers.lookupByVPN a = some q → q = r) ∧
      ∃ route ∈ (d.peers.entry r).subnetRoutes, route.contains a = true) := by
  by_cases hown : a = (d.peers.entry r).vpnAddr
  · simp [vouches, hown]
  · rw [or_iff_right hown, vouches]
    simp only [hown, ite_false, Prefix.contains_masked]
    cases htun : d.tun with
    | none =>
      cases hq : d.peers.lookupByVPN a with
      | none => simp
      | some q => by_cases hqr : q = r <;> simp [hqr]
    | some tunPrefix =>
      cases hin : tunPrefix.contains a with
      | true => simp [hin]
      | false =>
        cases hq : d.peers.lookupByVPN a with
        | none => simp [hin]
        | some q => by_cases hqr : q = r <;> simp [hin, hqr]

/-- An address of the mesh is vouched for only by the peer that has it. -/
theorem own_of_meshAddr (hi : d.peers.Indexed) (hv : d.vouches r a = true)
    (ha : a.isValid = true) (hmesh : MeshAddr d a) : a = (d.peers.entry r).vpnAddr := by
  rcases vouches_iff.mp hv with hown | ⟨htun, hother, -⟩
  · exact hown
  · rcases hmesh with ⟨tunPrefix, hsome, hin⟩ | ⟨q, hq, hown⟩
    · rw [htun tunPrefix hsome] at hin
      cases hin
    · have hlook : d.peers.lookupByVPN a = some q := by
        rw [hown] at ha ⊢
        exact hi.vpn _ q hq ha
      rwa [hother q hlook] at hown

theorem route_of_not_meshAddr (hr : Current d.peers r) (hv : d.vouches r a = true)
    (hmesh : ¬MeshAddr d a) : ∃ route ∈ (d.peers.entry r).subnetRoutes, route.contains a = true := by
  rcases vouches_iff.mp hv with hown | ⟨-, -, hroute⟩
  · exact absurd (.inr ⟨r, hr, hown⟩) hmesh
  · exact hroute

theorem isValid_unmap_of_extract {offset4 offset6 : Nat} {pkt : Bytes}
    (h : extractIP offset4 offset6 pkt = some a) : a.unmap.isValid = true := by
  unfold extractIP at h
  split_ifs at h
  · cases h
    rfl
  · cases h
    exact isValid_unmap_flowAddr true _

/-- What the source check says of a packet that passes it. -/
theorem source_of_sourceAllowed {plain : Bytes} (h : d.sourceAllowed r plain = true) :
    ∃ src, extractSrcIP plain = some src ∧ d.vouches r src.unmap = true ∧
      src.unmap.isValid = true := by
  unfold sourceAllowed at h
  cases hsrc : extractSrcIP plain with
  | none =>
    rw [hsrc] at h
    cases h
  | some src =>
    rw [hsrc] at h
    exact ⟨src, rfl, h, isValid_unmap_of_extract hsrc⟩

/-- A packet with an address of the mesh as its source comes from the peer with the address. -/
theorem delivered_of_meshAddr (hi : d.peers.Indexed) {i : Input} {p : PeerID} {plain : Bytes}
    {src : Addr} (hdel : Output.delivered p plain ∈ (d.step i).2)
    (hsrc : extractSrcIP plain = some src) (hmesh : MeshAddr d src.unmap) :
    src.unmap.isValid = true ∧
      ∃ r, Current d.peers r ∧ p = d.idOf r ∧ src.unmap = (d.peers.entry r).vpnAddr := by
  obtain ⟨r, wire, addr, -, hauth, hallowed, -, hp⟩ := delivered_inv hdel
  obtain ⟨src', hsrc', hv, hvalid⟩ := source_of_sourceAllowed hallowed
  cases hsrc.symm.trans hsrc'
  exact ⟨hvalid, r, current_of_authenticated hi hauth, hp, own_of_meshAddr hi hv hvalid hmesh⟩

theorem SameMesh.meshAddr {d' : Dispatcher} (h : SameMesh d d') : MeshAddr d' a ↔ MeshAddr d a := by
  simp only [MeshAddr, h.tun, h.current, h.peers.vpnAddr]

end Dispatcher

open Dispatcher

/-- No peer speaks for another. A packet written to the TUN whose source is an address of the mesh
has the VPN address of the peer it was decrypted for, any other is in the routes of that peer. As
long as the peers stay the same, one source of the mesh is delivered from one peer only. -/
theorem no_peer_speaks_for_another {toLower : String → String} {d : Dispatcher}
    (h : Reachable toLower d.peers) :
    (∀ wire addr now p plain, Output.delivered p plain ∈ (d.handleUDPPacket wire addr now).2 →
      ∃ r src, d.authenticated wire addr = some (r, plain) ∧ Current d.peers r ∧ p = d.idOf r ∧
        extractSrcIP plain = some src ∧
        (MeshAddr d src.unmap → src.unmap = (d.peers.entry r).vpnAddr) ∧
        (¬MeshAddr d src.unmap →
          ∃ route ∈ (d.peers.entry r).subnetRoutes, route.contains src.unmap = true)) ∧
    ∀ is, Along next KeepsPeers d is → ∀ x ∈ trail next d is, ∀ y ∈ trail next d is,
      ∀ p q plain plain' src src', Output.delivered p plain ∈ (x.1.step x.2).2 →
        Output.delivered q plain' ∈ (y.1.step y.2).2 →
        extractSrcIP plain = some src → extractSrcIP plain' = some src' →
        src.unmap = src'.unmap → MeshAddr d src.unmap → p = q := by
  have hi := h.indexed
  refine ⟨?_, ?_⟩
  · intro wire addr now p plain hdel
    obtain ⟨r, hauth, hallowed, -, -, hp⟩ :=
      ((handleUDPPacket_spec d wire addr now).delivered p plain).mp hdel
    obtain ⟨src, hsrc, hv, hvalid⟩ := source_of_sourceAllowed hallowed
    have hr := current_of_authenticated hi hauth
    exact ⟨r, src, hauth, hr, hp, hsrc, own_of_meshAddr hi hv hvalid, route_of_not_meshAddr hr hv⟩
  · intro is hkeeps x hx y hy p q plain plain' src src' hdel hdel' hsrc hsrc' hsame hmesh
    have hinv := hkeeps.keeps_trail (fun d' => SameMesh d d' ∧ d'.peers.Indexed) ⟨.refl d, hi⟩
      fun d' i hd' hi' =>
        ⟨hd'.1.trans (next_mesh hi' hd'.2).1, (next_mesh hi' hd'.2).2⟩
    obtain ⟨hx', hix⟩ := hinv x hx
    obtain ⟨hy', hiy⟩ := hinv y hy
    obtain ⟨hvalid, r, hr, rfl, hown⟩ := delivered_of_meshAddr hix hdel hsrc (hx'.meshAddr.mpr hmesh)
    obtain ⟨-, r', hr', rfl, hown'⟩ := delivered_of_meshAddr hiy hdel' hsrc'
      (hy'.meshAddr.mpr (hsame ▸ hmesh))
    -- both entries have the address in the table at the start, where it leads to one entry
    rw [hx'.current] at hr
    rw [hy'.current] at hr'
    rw [hx'.peers.vpnAddr] at hown
    rw [hy'.peers.vpnAddr, ← hsame] at hown'
    have hlook {s : EntryRef} (hs : Current d.peers s) (ha : src.unmap = (d.peers.entry s).vpnAddr) :
        d.peers.lookupByVPN src.unmap = some s := by
      rw [ha] at hvalid ⊢
      exact hi.vpn _ s hs hvalid
    obtain rfl := Option.some.inj ((hlook hr hown).symm.trans (hlook hr' hown'))
    rw [hx'.idOf, hy'.idOf]

namespace Sample

/-- The peers with keys 2 and 3, the first with a route that covers the mesh. -/
def upserts : List TableOp :=
  [.upsert { peer 2 with subnetRoutes := [⟨.v4 (vpn 0), 8, by decide, rfl⟩] }, .upsert (peer 3)]

/-- A node that has joined with these peers. -/
def joined : Dispatcher :=
  { dispatcher openPolicy with peers := (Peers.reached id peer (fun _ => session) upserts).table }

end Sample

theorem no_peer_speaks_for_another_joined :
    let pkt := Sample.tcp 2 1 4000 22 Sample.syn
    Output.delivered 2 pkt ∈
      (Sample.joined.handleUDPPacket (buildDataPacket 0 pkt) (Sample.endpoint 2) 0).2 ∧
      ∃ r src, Sample.joined.authenticated (buildDataPacket 0 pkt) (Sample.endpoint 2) =
          some (r, pkt) ∧ extractSrcIP pkt = some src ∧
        src.unmap = (Sample.joined.peers.entry r).vpnAddr := by
  intro pkt
  have hreach : Reachable id Sample.joined.peers := ⟨_, _, Sample.upserts, .refl _⟩
  have hdel : Output.delivered 2 pkt ∈
      (Sample.joined.handleUDPPacket (buildDataPacket 0 pkt) (Sample.endpoint 2) 0).2 := by
    decide +kernel
  obtain ⟨r, src, hauth, -, -, hsrc, hown, -⟩ :=
    (no_peer_speaks_for_another hreach).1 _ _ _ _ _ hdel
  refine ⟨hdel, r, src, hauth, hsrc, hown (.inl ⟨_, rfl, ?_⟩)⟩
  have hvalue : extractSrcIP pkt = some (.v4 (Sample.vpn 2)) := by decide +kernel
  cases hsrc.symm.trans hvalue
  decide

end Veld.Dataplane
