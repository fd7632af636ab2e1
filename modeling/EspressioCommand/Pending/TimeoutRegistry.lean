import EspressioCommand.Library.EntryList
import EspressioCommand.Text.Bytes
import Mathlib.Data.List.Induction

/-!
# `CommandResponseTimeoutRegistry`

The registry keeps its command defaults in a list, and `Resolve` takes the first entry of
the path that is not zero.  It carries that no path has two entries: otherwise a default
that was set back to zero would leave an older one in force.

`resolve_configure` gives the answer after any sequence of calls in terms of the calls: the
override, the last command default of the path, the last transport default.
-/

namespace EspressioCommand

open Library

/-- `CommandResponseTimeoutRegistry::Entry`. -/
structure TimeoutEntry where
  path : CommandString
  milliseconds : UInt32 := 0
deriving DecidableEq

namespace TimeoutEntry

/-- The loop of `SetCommandDefault`, and the new entry behind it. -/
def setCommandDefault (path : CommandString) (milliseconds : UInt32) :
    List TimeoutEntry → List TimeoutEntry
  | [] => [{ path := path, milliseconds := milliseconds }]
  | entry :: rest =>
      if entry.path = path then { entry with milliseconds := milliseconds } :: rest
      else entry :: setCommandDefault path milliseconds rest

theorem setCommandDefault_eq_put (path : CommandString) (milliseconds : UInt32)
    (entries : List TimeoutEntry) :
    setCommandDefault path milliseconds entries =
      put TimeoutEntry.path { path := path, milliseconds := milliseconds } entries := by
  induction entries with
  | nil => rfl
  | cons entry rest ih =>
      rw [setCommandDefault, put, ih]
      by_cases hpath : entry.path = path
      · rw [if_pos hpath, if_pos hpath, hpath]
      · rw [if_neg hpath, if_neg hpath]

end TimeoutEntry

/-- `CommandResponseTimeoutRegistry`: no path has two entries. -/
structure CommandResponseTimeoutRegistry where
  entries : List TimeoutEntry
  transportDefaultMilliseconds : UInt32
  distinct : (entries.map TimeoutEntry.path).Nodup

namespace CommandResponseTimeoutRegistry

/-- A new registry. -/
def initial : CommandResponseTimeoutRegistry where
  entries := []
  transportDefaultMilliseconds := 100
  distinct := List.nodup_nil

/-- `CommandResponseTimeoutRegistry::SetTransportDefault`. -/
def setTransportDefault (registry : CommandResponseTimeoutRegistry) (milliseconds : UInt32) :
    CommandResponseTimeoutRegistry :=
  { registry with transportDefaultMilliseconds := milliseconds }

/-- `CommandResponseTimeoutRegistry::SetCommandDefault`. -/
def setCommandDefault (registry : CommandResponseTimeoutRegistry) (path : CommandString)
    (milliseconds : UInt32) : CommandResponseTimeoutRegistry where
  entries := TimeoutEntry.setCommandDefault path milliseconds registry.entries
  transportDefaultMilliseconds := registry.transportDefaultMilliseconds
  distinct := by
    rw [TimeoutEntry.setCommandDefault_eq_put]
    exact nodup_keys_put TimeoutEntry.path registry.distinct _

/-- `CommandResponseTimeoutRegistry::Resolve`. -/
def resolve (registry : CommandResponseTimeoutRegistry) (path : CommandString)
    (instanceOverrideMilliseconds : UInt32 := 0) : UInt32 :=
  if instanceOverrideMilliseconds ≠ 0 then instanceOverrideMilliseconds
  else
    match registry.entries.find? fun entry => entry.path = path ∧ entry.milliseconds ≠ 0 with
    | some entry => entry.milliseconds
    | none => registry.transportDefaultMilliseconds

/-! ### The registry as a map -/

/-- The default that is stored for a path, zero included. -/
def commandDefaults (registry : CommandResponseTimeoutRegistry) :
    PartialMap CommandString UInt32 :=
  fun path => (entryAt TimeoutEntry.path registry.entries path).map TimeoutEntry.milliseconds

/-- `SetCommandDefault` updates the map at its path. -/
theorem commandDefaults_setCommandDefault (registry : CommandResponseTimeoutRegistry)
    (path : CommandString) (milliseconds : UInt32) :
    (registry.setCommandDefault path milliseconds).commandDefaults =
      Function.update registry.commandDefaults path (some milliseconds) := by
  have hentries : (registry.setCommandDefault path milliseconds).entries =
      put TimeoutEntry.path { path := path, milliseconds := milliseconds } registry.entries :=
    TimeoutEntry.setCommandDefault_eq_put path milliseconds registry.entries
  ext other : 1
  rw [commandDefaults, hentries, entryAt_put]
  by_cases hother : other = path
  · subst hother
    rw [Function.update_self, Function.update_self]
    rfl
  · rw [Function.update_of_ne hother, Function.update_of_ne hother]
    rfl

/-- **What `Resolve` answers.**  The search that skips the zeros finds the stored default,
unless it is zero. -/
theorem resolve_eq (registry : CommandResponseTimeoutRegistry) (path : CommandString)
    (instanceOverrideMilliseconds : UInt32) :
    registry.resolve path instanceOverrideMilliseconds =
      if instanceOverrideMilliseconds ≠ 0 then instanceOverrideMilliseconds
      else ((registry.commandDefaults path).filter fun milliseconds => milliseconds ≠ 0).getD
        registry.transportDefaultMilliseconds := by
  have hfind := find?_key_and TimeoutEntry.path registry.distinct path
    fun entry => entry.milliseconds ≠ 0
  simp only [decide_eq_true_eq] at hfind
  rw [resolve, hfind, commandDefaults]
  congr 1
  cases entryAt TimeoutEntry.path registry.entries path with
  | none => rfl
  | some entry =>
      rw [Option.map_some, Option.filter_some, Option.filter_some]
      split_ifs <;> rfl

/-! ### Histories of calls -/

/-- The calls that configure a registry. -/
inductive TimeoutCall
  | setTransportDefault (milliseconds : UInt32)
  | setCommandDefault (path : CommandString) (milliseconds : UInt32)

/-- One call. -/
def perform (registry : CommandResponseTimeoutRegistry) :
    TimeoutCall → CommandResponseTimeoutRegistry
  | .setTransportDefault milliseconds => registry.setTransportDefault milliseconds
  | .setCommandDefault path milliseconds => registry.setCommandDefault path milliseconds

/-- The calls on a new registry, in order. -/
def configure (calls : List TimeoutCall) : CommandResponseTimeoutRegistry :=
  calls.foldl perform initial

/-- What the call sets the transport default to. -/
def TimeoutCall.transportDefault? : TimeoutCall → Option UInt32
  | .setTransportDefault milliseconds => some milliseconds
  | .setCommandDefault _ _ => none

/-- What the call sets the default of exactly this path to. -/
def TimeoutCall.commandDefault? (path : CommandString) : TimeoutCall → Option UInt32
  | .setTransportDefault _ => none
  | .setCommandDefault other milliseconds => if other = path then some milliseconds else none

/-- The last transport default that was set, or the 100 milliseconds of a new registry. -/
def lastTransportDefault (calls : List TimeoutCall) : UInt32 :=
  (calls.filterMap TimeoutCall.transportDefault?).getLast?.getD 100

/-- The last default that was set for exactly this path. -/
def lastCommandDefault (calls : List TimeoutCall) (path : CommandString) : Option UInt32 :=
  (calls.filterMap (TimeoutCall.commandDefault? path)).getLast?

theorem lastTransportDefault_concat (calls : List TimeoutCall) (call : TimeoutCall) :
    lastTransportDefault (calls ++ [call]) =
      call.transportDefault?.getD (lastTransportDefault calls) := by
  rw [lastTransportDefault, List.filterMap_append]
  cases hcall : call.transportDefault? with
  | none => simp [hcall, lastTransportDefault]
  | some milliseconds => simp [hcall]

theorem lastCommandDefault_concat (calls : List TimeoutCall) (call : TimeoutCall)
    (path : CommandString) :
    lastCommandDefault (calls ++ [call]) path =
      (call.commandDefault? path).or (lastCommandDefault calls path) := by
  rw [lastCommandDefault, List.filterMap_append]
  cases hcall : call.commandDefault? path with
  | none => simp [hcall, lastCommandDefault]
  | some milliseconds => simp [hcall]

/-- **Step lemma.**  A call changes what it sets, and nothing else. -/
theorem perform_spec (registry : CommandResponseTimeoutRegistry) (call : TimeoutCall) :
    (∀ path, (registry.perform call).commandDefaults path =
        (call.commandDefault? path).or (registry.commandDefaults path)) ∧
      (registry.perform call).transportDefaultMilliseconds =
        call.transportDefault?.getD registry.transportDefaultMilliseconds := by
  cases call with
  | setTransportDefault milliseconds => exact ⟨fun path => rfl, rfl⟩
  | setCommandDefault path milliseconds =>
      refine ⟨?_, rfl⟩
      intro other
      rw [perform, commandDefaults_setCommandDefault, TimeoutCall.commandDefault?]
      by_cases hother : path = other
      · subst hother
        rw [Function.update_self, if_pos rfl, Option.some_or]
      · rw [Function.update_of_ne (Ne.symm hother), if_neg hother, Option.none_or]

/-- **Run lemma.**  The registry remembers the last call for each path, and for the
transport. -/
theorem configure_spec (calls : List TimeoutCall) :
    (∀ path, (configure calls).commandDefaults path = lastCommandDefault calls path) ∧
      (configure calls).transportDefaultMilliseconds = lastTransportDefault calls := by
  induction calls using List.reverseRecOn with
  | nil => exact ⟨fun path => rfl, rfl⟩
  | append_singleton calls call ih =>
      obtain ⟨hcommands, htransport⟩ := ih
      obtain ⟨hperform, htransport'⟩ := (configure calls).perform_spec call
      have hconcat : configure (calls ++ [call]) = (configure calls).perform call := by
        rw [configure, List.foldl_append]
        rfl
      rw [hconcat]
      constructor
      · intro path
        rw [hperform, hcommands, lastCommandDefault_concat]
      · rw [htransport', htransport, lastTransportDefault_concat]

/-- **Timeout precedence.**  After any calls, `Resolve` returns the override, if there is
one; else the last default of exactly this path, unless it is zero; else the last transport
default.  Setting one path leaves the answers for the others as they were. -/
theorem resolve_configure (calls : List TimeoutCall) (path : CommandString)
    (instanceOverrideMilliseconds : UInt32) :
    (configure calls).resolve path instanceOverrideMilliseconds =
        (if instanceOverrideMilliseconds ≠ 0 then instanceOverrideMilliseconds
        else ((lastCommandDefault calls path).filter fun milliseconds => milliseconds ≠ 0).getD
          (lastTransportDefault calls)) ∧
      ∀ (other : CommandString) (milliseconds : UInt32), other ≠ path →
        (configure (calls ++ [.setCommandDefault other milliseconds])).resolve path
            instanceOverrideMilliseconds =
          (configure calls).resolve path instanceOverrideMilliseconds := by
  obtain ⟨hcommands, htransport⟩ := configure_spec calls
  have hresolve : (configure calls).resolve path instanceOverrideMilliseconds =
      if instanceOverrideMilliseconds ≠ 0 then instanceOverrideMilliseconds
      else ((lastCommandDefault calls path).filter fun milliseconds => milliseconds ≠ 0).getD
        (lastTransportDefault calls) := by
    rw [resolve_eq, hcommands, htransport]
  refine ⟨hresolve, ?_⟩
  intro other milliseconds hother
  obtain ⟨hcommands', htransport'⟩ :=
    configure_spec (calls ++ [.setCommandDefault other milliseconds])
  rw [hresolve, resolve_eq, hcommands', htransport', lastCommandDefault_concat,
    lastTransportDefault_concat, TimeoutCall.commandDefault?, if_neg hother, Option.none_or]
  rfl

/-- A default that was set back to zero is as good as none. -/
example : (configure [.setCommandDefault (text "gpio") 250,
    .setCommandDefault (text "gpio") 0]).resolve (text "gpio") = 100 := by decide

end CommandResponseTimeoutRegistry

end EspressioCommand
