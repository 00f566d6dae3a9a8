import DaemonProxy.Model.ControlSocket

/-! # The files that the control socket removes

The type of a file is a code in four bits of `st_mode`, and the codes of regular files, directories and block devices have a bit in
common with the code of sockets. `remove_any_socket` tests for any of these bits.
-/

namespace DaemonProxy.Soundness.ControlSocket

open Lib Model Model.ControlSocket

variable {euid : ℕ} {unlink : Bool} {path : Bytes} {s : State} {st : Stat}

/-- `S_ISSOCK`, and owned by the effective user. -/
def OwnSocket (euid : ℕ) (st : Stat) : Prop := st.mode &&& sIfmt = sIfsock ∧ st.uid = euid

/-- Only own sockets are removed. -/
def OwnOnly (euid : ℕ) (removed : List (Bytes × Stat)) : Prop := ∀ entry ∈ removed, OwnSocket euid entry.2

/-- A step removes only own sockets, and a start at the path of another file fails and leaves it there. -/
structure Careful (euid : ℕ) (s : State) (event : Event) : Prop where
  removes : OwnOnly euid (run euid s event).removed
  leaves : ∀ path replies st, event = .start path replies → stat s.files (cString path) = some st → ¬OwnSocket euid st →
    (run euid s event).result = false ∧ (run euid s event).state.files (cString path) = s.files (cString path)

section Proofs

end Proofs

end DaemonProxy.Soundness.ControlSocket
