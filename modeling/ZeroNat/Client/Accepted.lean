import ZeroNat.Client.Control

/-!
# Messages that are accepted

A message to the admin socket of a client is refused, and then nothing changes, or it has passed
all the checks that it is put to.
-/

namespace ZeroNat.Client

open Config (CfgServer CfgForward CfgPppoe CfgTap CfgTun CfgPeer ClientConfig)

namespace ControlState

/-- A message takes a client to another state. -/
inductive Accepted (s : ControlState) : ClientMsg → ControlState → Prop
  | selectServer {name : String} {target : ServerTarget}
      (hget : SharedServers.get s.servers name = some target) :
      Accepted s (.selectServer name)
        (({ s with active := s.active.switch target } : ControlState).config fun cfg =>
          { cfg with active := some name })
  | setForwardOptions {proto : Proto} {port : UInt16} {enabled proxy : Bool} {idleSecs : UInt32}
      {forwards : SharedForwards} (hproxy : ¬ (proxy ∧ proto = .udp))
      (hset : s.forwards.setOptions proto port enabled proxy ((idleOf idleSecs).map UInt32.toNat)
        = some forwards) :
      Accepted s (.setForwardOptions proto port enabled proxy idleSecs)
        (({ s with forwards := forwards } : ControlState).config fun cfg =>
          { cfg with
            forwards := updateFirst (fun f => f.proto = proto ∧ f.port = port)
              (fun f => { f with enabled := enabled, proxy := proxy, idle := idleOf idleSecs })
              cfg.forwards })
  | spawnPppoe {name : String} {config : PppoeRunConfig} {active : ActiveTarget}
      (hset : s.active.setMode (.pppoe name config) = .ok active) :
      Accepted s (.spawnPppoe name) { s with active := active }
  | stopSession {name : String} {active : ActiveTarget}
      (hstop : s.active.stopPppoe name s.baseMode = some active) :
      Accepted s (.stopSession name) { s with active := active }
  | addServer {name addr secret secret' : String} {transport : Transport} {key : Bytes 32}
      {servers : SharedServers} (hnamed : name ≠ "")
      (hplain : controlled [("name", name), ("addr", addr), ("secret", secret)] = none)
      (hnormal : Secret.normalize secret = .ok secret') (haddr : addr ≠ "dht")
      (hhost : validHostPort addr = true) (hkey : Secret.decode secret' = .ok key)
      (howner : SharedServers.discoveryOwner s.servers key = none)
      (hadd : SharedServers.add s.servers ⟨name, addr, secret', secret', none, transport⟩
        = some servers) :
      Accepted s (.addServer name addr secret transport)
        (({ s with servers := servers } : ControlState).config fun cfg =>
          { cfg with
            servers := cfg.servers ++ [⟨name, addr, none, secret', secret', none, transport⟩] })
  | removeServer {name : String} {servers : SharedServers} (hactive : s.active.target.name ≠ name)
      (hremove : SharedServers.remove s.servers name = some servers) :
      Accepted s (.removeServer name)
        (({ s with servers := servers } : ControlState).config fun cfg =>
          { cfg with servers := cfg.servers.filter fun s => s.name ≠ name })
  | reconnect {active : ActiveTarget}
      (hconnect : s.active.connect none s.bootMode = .ok (some active)) :
      Accepted s (.connect "") { s with active := active }
  | connect {name : String} {target : ServerTarget} {active : ActiveTarget}
      (hget : SharedServers.get s.servers name = some target)
      (hconnect : s.active.connect (some target) s.bootMode = .ok (some active)) :
      Accepted s (.connect name)
        (({ s with active := active } : ControlState).config fun cfg =>
          { cfg with active := some name })
  | disconnect {active : ActiveTarget} (hdisconnect : s.active.disconnect = some active) :
      Accepted s .disconnect { s with active := active }
  | addForward {proto : Proto} {port : UInt16} {target : String} {proxy enabled : Bool}
      {idleSecs : UInt32} {forwards : SharedForwards} (hproxy : ¬ (proxy ∧ proto = .udp))
      (hhost : validHostPort (forwardTarget port target) = true)
      (hplain : (forwardTarget port target).toList.any isControl = false)
      (hdevice : isDevice s.fallbackMode = false)
      (hadd : s.forwards.add proto ⟨port, forwardTarget port target, proxy,
        (idleOf idleSecs).map UInt32.toNat, enabled⟩ = some forwards) :
      Accepted s (.addForward proto port target proxy idleSecs enabled)
        (({ s with forwards := forwards } : ControlState).config fun cfg =>
          { cfg with
            forwards := cfg.forwards
              ++ [⟨proto, port, forwardTarget port target, proxy, idleOf idleSecs, enabled⟩] })
  | removeForward {proto : Proto} {port : UInt16} {forwards : SharedForwards}
      (hremove : s.forwards.remove proto port = some forwards) :
      Accepted s (.removeForward proto port)
        (({ s with forwards := forwards } : ControlState).config fun cfg =>
          { cfg with forwards := cfg.forwards.filter fun f => ¬ (f.proto = proto ∧ f.port = port) })
  | attachPeer {peerId dev iface : String} {want : UInt8} {exit exitStrict : Bool}
      {tun : Option CfgTun} {peer : Option CfgPeer} {spec : PeerSlotSpec} {active : ActiveTarget}
      (hplain : controlled [("peer", peerId), ("dev", dev), ("iface", iface)] = none)
      (hsecret : s.hasPeerSecret = true) (htun : peerId ≠ "" → isTun s.fallbackMode = false)
      (hfields : attachFields peerId want dev exit exitStrict iface = .ok ())
      (hrecords : s.attachRecords peerId want dev exit exitStrict iface = .ok (tun, peer))
      (hslots : peerSlots tun peer = .ok [spec])
      (hattach : s.active.attachPeer spec s.bootMode = .ok active) :
      Accepted s (.attachPeer peerId want dev exit exitStrict iface)
        (({ s with active := active } : ControlState).config (saveRecords tun peer))
  | detachPeer {peerId : String} {want : UInt8} {active : ActiveTarget}
      (hwant : want = providesExit ∨ want = providesSegment)
      (hdetach : s.active.detachPeer peerId want = some active) :
      Accepted s (.detachPeer peerId want)
        (({ s with active := active } : ControlState).config fun cfg =>
          if peerId = "" then
            { cfg with peer := cfg.peer.bind fun peer => dropEmpty (clearPeer want peer) }
          else { cfg with tun := none })

/-- What may be answered: a message is refused and nothing changes, or it is accepted. -/
def Answered (s : ControlState) (msg : ClientMsg) (r : ControlState × Applied) : Prop :=
  (∃ e, r = (s, refused e)) ∨ Accepted s msg r.1 ∧ ∀ e, r.2 ≠ refused e

section

variable {s : ControlState} {msg : ClientMsg}

theorem answered_refused (e : String) :
  s.Answered msg (s, refused e)
  := Or.inl ⟨e, rfl⟩

theorem answered_ok {t : ControlState} (h : Accepted s msg t) (after : After) :
  s.Answered msg (t, .ok after)
  := Or.inr ⟨h, fun _ => by simp [refused]⟩

theorem answered_done {t : ControlState} (h : Accepted s msg t) :
  s.Answered msg (t, done)
  := Or.inr ⟨h, fun _ => by simp [refused, done]⟩

theorem answered_selectServer (dht : Bool) (name : String) :
  s.Answered (.selectServer name) (s.selectServer dht name)
  := by
  rw [ControlState.selectServer]
  split
  · exact answered_refused _
  · split
    · exact answered_refused _
    · exact answered_ok (.selectServer ‹_›) _

theorem answered_setForwardOptions (proto : Proto) (port : UInt16) (enabled proxy : Bool)
    (idleSecs : UInt32) :
  s.Answered (.setForwardOptions proto port enabled proxy idleSecs)
    (s.setForwardOptions proto port enabled proxy idleSecs)
  := by
  rw [ControlState.setForwardOptions]
  split
  · exact answered_refused _
  · split
    · exact answered_refused _
    · exact answered_ok (.setForwardOptions ‹_› ‹_›) _

theorem answered_spawnPppoe (name : String) :
  s.Answered (.spawnPppoe name) (s.spawnPppoe name)
  := by
  rw [ControlState.spawnPppoe]
  split
  · exact answered_refused _
  · split
    · exact answered_done (.spawnPppoe ‹_›)
    · exact answered_refused _

theorem answered_stopSession (name : String) :
  s.Answered (.stopSession name) (s.stopSession name)
  := by
  rw [ControlState.stopSession]
  split
  · exact answered_done (.stopSession ‹_›)
  · exact answered_refused _

theorem answered_addServer (name addr secret : String) (transport : Transport) :
  s.Answered (.addServer name addr secret transport) (s.addServer name addr secret transport)
  := by
  rw [ControlState.addServer]
  split
  · exact answered_refused _
  · split
    · exact answered_refused _
    · split
      · exact answered_refused _
      · split
        · exact answered_refused _
        · split
          · exact answered_refused _
          · rename_i hhost
            split
            · exact answered_refused _
            · split
              · exact answered_refused _
              · split
                · exact answered_refused _
                · exact answered_ok (.addServer ‹_› ‹_› ‹_› ‹_› (by simpa using hhost) ‹_› ‹_›
                    ‹_›) _

theorem answered_removeServer (name : String) :
  s.Answered (.removeServer name) (s.removeServer name)
  := by
  rw [ControlState.removeServer]
  split
  · exact answered_refused _
  · split
    · exact answered_refused _
    · exact answered_ok (.removeServer ‹_› ‹_›) _

theorem answered_connect (dht : Bool) (name : String) :
  s.Answered (.connect name) (s.connect dht name)
  := by
  rw [ControlState.connect]
  split
  · rename_i hname
    subst hname
    rw [connectTo]
    split
    · exact answered_refused _
    · exact answered_refused _
    · exact answered_done (.reconnect ‹_›)
  · split
    · exact answered_refused _
    · rename_i target htarget
      split
      · exact answered_refused _
      · rw [connectTo]
        split
        · exact answered_refused _
        · exact answered_refused _
        · exact answered_ok (.connect htarget ‹_›) _

theorem answered_disconnect :
  s.Answered .disconnect s.disconnect
  := by
  rw [ControlState.disconnect]
  split
  · exact answered_done (.disconnect ‹_›)
  · exact answered_refused _

theorem answered_addForward (proto : Proto) (port : UInt16) (target : String) (proxy : Bool)
    (idleSecs : UInt32) (enabled : Bool) :
  s.Answered (.addForward proto port target proxy idleSecs enabled)
    (s.addForward proto port target proxy idleSecs enabled)
  := by
  rw [ControlState.addForward]
  split
  · exact answered_refused _
  · split
    · exact answered_refused _
    · rename_i hhost
      split
      · exact answered_refused _
      · rename_i hplain
        split
        · exact answered_refused _
        · rename_i hdevice
          split
          · exact answered_refused _
          · exact answered_ok (.addForward ‹_› (by simpa using hhost) (by simpa using hplain)
              (by simpa using hdevice) ‹_›) _

theorem answered_removeForward (proto : Proto) (port : UInt16) :
  s.Answered (.removeForward proto port) (s.removeForward proto port)
  := by
  rw [ControlState.removeForward]
  split
  · exact answered_refused _
  · exact answered_ok (.removeForward ‹_›) _

theorem answered_attachPeer (peerId : String) (want : UInt8) (dev : String)
    (exit exitStrict : Bool) (iface : String) :
  s.Answered (.attachPeer peerId want dev exit exitStrict iface)
    (s.attachPeer peerId want dev exit exitStrict iface)
  := by
  rw [ControlState.attachPeer]
  split
  · exact answered_refused _
  · split
    · exact answered_refused _
    · rename_i hsecret
      split
      · exact answered_refused _
      · rename_i htun
        have htun' : peerId ≠ "" → isTun s.fallbackMode = false := by
          intro hconsumer
          simpa using fun h => htun ⟨hconsumer, h⟩
        split
        · exact answered_refused _
        · split
          · exact answered_refused _
          · rw [attachSlot]
            split
            · exact answered_refused _
            · split
              · exact answered_refused _
              · exact answered_ok (.attachPeer ‹_› (by simpa using hsecret) htun' ‹_› ‹_› ‹_›
                  ‹_›) _
            · exact answered_refused _

theorem answered_detachPeer (peerId : String) (want : UInt8) :
  s.Answered (.detachPeer peerId want) (s.detachPeer peerId want)
  := by
  rw [ControlState.detachPeer]
  split
  · exact answered_refused _
  · rename_i hwant
    split
    · exact answered_refused _
    · refine answered_ok (.detachPeer ?_ ‹_›) _
      by_contra hnot
      rw [not_or] at hnot
      exact hwant hnot

/-- Every message is refused, and then nothing changes, or it is accepted. -/
theorem answered_apply (dht : Bool) (s : ControlState) (msg : ClientMsg) :
  s.Answered msg (s.apply dht msg)
  := by
  cases msg with
  | selectServer name => exact answered_selectServer dht name
  | setForwardOptions proto port enabled proxy idleSecs =>
      exact answered_setForwardOptions proto port enabled proxy idleSecs
  | spawnPppoe name => exact answered_spawnPppoe name
  | stopSession name => exact answered_stopSession name
  | addServer name addr secret transport => exact answered_addServer name addr secret transport
  | removeServer name => exact answered_removeServer name
  | connect name => exact answered_connect dht name
  | disconnect => exact answered_disconnect
  | addForward proto port target proxy idleSecs enabled =>
      exact answered_addForward proto port target proxy idleSecs enabled
  | removeForward proto port => exact answered_removeForward proto port
  | attachPeer peerId want dev exit exitStrict iface =>
      exact answered_attachPeer peerId want dev exit exitStrict iface
  | detachPeer peerId want => exact answered_detachPeer peerId want
  | _ => exact answered_refused _

end

end ControlState

end ZeroNat.Client
