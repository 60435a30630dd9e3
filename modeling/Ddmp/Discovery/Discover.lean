import Ddmp.Discovery.Collector
import Ddmp.Discovery.Probe
import Ddmp.Lib.Collate

/-!
# Finding a cooler

What `discover` makes of the services and the replies that it sees, and which entry `find_cooler`
returns.
-/

namespace Ddmp

open Lib Lib.Collate

/-- Where a hit comes from. -/
inductive Source
  | mdns
  | probe
  | broadcast
deriving DecidableEq, Repr

/-- `Discovered`. -/
@[ext]
structure Discovered where
  coolerId : List Char
  name : List Char
  hostname : Option (List Char)
  ip : Option String
  port : ℕ
  firmware : Option (List Char) := none
  sku : Option (List Char) := none
  instanceName : Option (List Char) := none
  sources : Finset Source := ∅
deriving DecidableEq

/-- `None` or an empty text: what `or` passes over. -/
def Falsy {τ : Type} (empty : τ) (o : Option τ) : Prop := o = none ∨ o = some empty

instance {τ : Type} [DecidableEq τ] (empty : τ) (o : Option τ) : Decidable (Falsy empty o) :=
  inferInstanceAs (Decidable (_ ∨ _))

namespace Discovered

section

variable (lower : List Char → List Char)

/-- `Discovered.short_id`. -/
def shortId (d : Discovered) : List Char :=
  if d.coolerId ≠ [] then d.coolerId.rtake 6
  else lower (d.name.rtakeWhile (· ≠ '_'))

/-- `Discovered.matches`. -/
def matchesId (d : Discovered) (coolerId : List Char) : Bool :=
  let wanted := normalizeId lower coolerId
  if d.coolerId ≠ [] ∧ wanted = d.coolerId then true
  else wanted ≠ [] && wanted.rtake 6 = d.shortId lower

/-- The key of `remember`. -/
def key (d : Discovered) : List Char :=
  if d.shortId lower ≠ [] then d.shortId lower else "name:".toList ++ lower d.name

end

/-- What `remember` keeps of two hits with one key. -/
def merge (prev d : Discovered) : Discovered where
  coolerId := firstOf (· = []) prev.coolerId d.coolerId
  name := firstOf (· = []) prev.name d.name
  hostname := firstOf (Falsy []) prev.hostname d.hostname
  ip := firstOf (Falsy "") prev.ip d.ip
  port := firstOf (· = 0) prev.port d.port
  firmware := firstOf (Falsy []) prev.firmware d.firmware
  sku := firstOf (Falsy []) prev.sku d.sku
  instanceName := firstOf (Falsy []) prev.instanceName d.instanceName
  sources := prev.sources ∪ d.sources

/-- `from_reply`. -/
def fromReply (r : DdmdReply) (source : Source) : Discovered where
  coolerId := r.coolerId
  name := r.name
  hostname := if r.name ≠ [] then some (r.name ++ ".local".toList) else none
  ip := some r.host
  port := r.port
  sku := if r.sku ≠ [] then some r.sku else none
  sources := {source}

/-- The entry of a service. -/
def fromService (svc : MdnsService) : Discovered where
  coolerId := []
  name := svc.hostname.takeWhile (· ≠ '.')
  hostname := some svc.hostname
  ip := svc.addresses.head?
  port := svc.port
  firmware := svc.txt.get? "fwversion".toList
  sku := svc.txt.get? "sku".toList
  instanceName := some svc.instanceName
  sources := {.mdns}

/-- The order of the results: by name, then by address. -/
def Before (a b : Discovered) : Prop :=
  a.name < b.name ∨ a.name = b.name ∧ (a.ip.getD "").toList ≤ (b.ip.getD "").toList

instance : DecidableRel Before := fun _ _ => inferInstanceAs (Decidable (_ ∨ _))

end Discovered

/-- What `discover` sees: the services of `query_mdns`, each with the replies to the probe of its
address; the replies to the broadcast; and the replies to the probes of the hosts. -/
structure Seen where
  services : List (MdnsService × List DdmdReply)
  broadcast : List DdmdReply
  hosts : List (List DdmdReply)

section

variable (lower : List Char → List Char)

open Discovered

/-- `remember`. -/
def remember (found : Dict (List Char) Discovered) (d : Discovered) :
    Dict (List Char) Discovered :=
  match found.get? (d.key lower) with
  | none => found.set (d.key lower) d
  | some prev => found.set (d.key lower) (merge prev d)

/-- The hits for a service: a service with an address is probed first. -/
def serviceHits (svc : MdnsService) (replies : List DdmdReply) : List Discovered :=
  (if Falsy "" svc.addresses.head? then [] else replies.map (fromReply · .probe))
    ++ [fromService svc]

/-- All hits, in the order in which they are remembered. -/
def Seen.hits (seen : Seen) : List Discovered :=
  seen.services.flatMap (fun s => serviceHits s.1 s.2)
    ++ seen.broadcast.map (fromReply · .broadcast)
    ++ seen.hosts.flatMap (fun replies => replies.map (fromReply · .probe))

/-- The `found` map of `discover`. -/
def found (hits : List Discovered) : Dict (List Char) Discovered :=
  hits.foldl (remember lower) .empty

/-- `discover`. -/
def discover (seen : Seen) : List Discovered :=
  ((found lower seen.hits).entries.map Prod.snd).insertionSort Before

/-- `find_cooler`. -/
def findCooler (seen : Seen) (coolerId : List Char) : Option Discovered :=
  (discover lower seen).find? fun d => d.matchesId lower coolerId

end

end Ddmp
