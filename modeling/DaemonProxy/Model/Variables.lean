import DaemonProxy.Model.StrSeg

/-! # The variables of a service (`service.c`)

The buffer of a service's variables, as a string: entries `name=value`, each followed by a NUL. A value may itself hold
NULs, and is then read back as several entries.
-/

namespace DaemonProxy.Model

def pack (entries : List Bytes) : Bytes := entries.flatMap (· ++ [0])

/-- The entries of a packed string. -/
def entriesOf : Bytes → List Bytes
  | [] => []
  | c :: rest =>
      if c = 0 then [] :: entriesOf rest
      else match entriesOf rest with
        | [] => [[c]]
        | entry :: later => (c :: entry) :: later

/-- What stands before the `=` of an entry. -/
def entryKey (entry : Bytes) : Bytes := (splitAtSep 61 entry).1

/-- What becomes of an entry with this name; an entry without `=` keeps its NUL. -/
def changedEntry (name entry : Bytes) : Option Bytes → Bytes
  | some value => (entry ++ [0]).take (name.length + 1) ++ (value ++ [0])
  | none => []

def addedEntry (name : Bytes) : Option Bytes → Bytes
  | some value => name ++ 61 :: (value ++ [0])
  | none => []

/-- Gives the first entry with this name a new value, or adds it at the end; without a value, takes it out. -/
def setEntry (name : Bytes) (value : Option Bytes) : List Bytes → Bytes
  | [] => addedEntry name value
  | entry :: later =>
      if entryKey entry = name then changedEntry name entry value ++ pack later
      else entry ++ 0 :: setEntry name value later

/-- The packed string after a variable has been set. -/
def packedSet (packed : Bytes) (name : Bytes) (value : Option Bytes) : Bytes := setEntry name value (entriesOf packed)

/-- What `svc_get_var` leads to, up to a NUL. The value of an entry without `=` is taken to start behind its NUL: that is
the next entry or, behind the last one, memory that is not part of the buffer, for which there is no result. -/
def getEntry (name : Bytes) : List Bytes → Option (Option Bytes)
  | [] => some none
  | entry :: later =>
      if entryKey entry = name then
        if entry = name then later.head?.map some else some (some (entry.drop (name.length + 1)))
      else getEntry name later

/-- The string that a variable is set to, if it is set. -/
def packedGet (packed : Bytes) (name : Bytes) : Option (Option Bytes) := getEntry name (entriesOf packed)

end DaemonProxy.Model
