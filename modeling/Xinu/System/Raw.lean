import Xinu.System.Ipv4

namespace Xinu

structure Raw where
  -- `state == RAW_ALLOC`
  alloc : Bool
  -- 0 for all protocols
  proto : Nat
  -- of type 0 if there is none
  localip : Netaddr
  remoteip : Netaddr

def rawLevel (src dst : Netaddr) (proto level : Nat) (raw : Raw) : Nat :=
  if ¬ raw.alloc then level
  else
    let level := if level < 4 ∧ proto = raw.proto ∧ src = raw.remoteip ∧ dst = raw.localip then 4 else level
    let level := if level < 3 ∧ proto = raw.proto ∧
      (src = raw.remoteip ∧ raw.localip.type = 0 ∨ dst = raw.localip ∧ raw.remoteip.type = 0) then 3 else level
    let level := if level < 2 ∧ proto = raw.proto ∧ raw.remoteip.type = 0 ∧ raw.localip.type = 0 then 2 else level
    if level < 1 ∧ raw.proto = 0 ∧ raw.remoteip.type = 0 ∧ raw.localip.type = 0 then 1 else level

def rawDemuxFrom (src dst : Netaddr) (proto : Nat) : Nat → Nat → Option Nat → List Raw → Option Nat
  | _, _, best, [] => best
  | i, level, best, raw :: rest =>
      let level' := rawLevel src dst proto level raw
      rawDemuxFrom src dst proto (i + 1) level' (if level < level' then some i else best) rest

def rawDemux (rawtab : List Raw) (src dst : Netaddr) (proto : Nat) : Option Nat :=
  rawDemuxFrom src dst proto 0 0 none rawtab

end Xinu
