import DaemonProxy.Proofs.Sockaddr
import DaemonProxy.Proofs.Tokens

/-! # What the parsers of `strseg.c` make of a string -/

namespace DaemonProxy.Soundness

open Lib Model Model.Bytewise Proofs

/-! ## Tokens -/

/-- `strseg_tok_next`, called until it returns false, splits a string into these tokens and leaves `last`. -/
structure Tokenizes (m : Memory) (sep : UInt8) (string : Seg) (tokens : List Seg) (last : Seg) : Prop where
  terminates : ∀ fuel, (string.bytes m).count sep + 1 < fuel → segTokens m sep fuel string = some (tokens, last)
  number : tokens.length = (string.bytes m).count sep + 1
  free : ∀ token ∈ tokens, sep ∉ token.bytes m
  joined : [sep].intercalate (tokens.map (Seg.bytes m)) = string.bytes m
  final : last.len = -1
  finished : segTokNext m last sep = none

/-- The flag loop of `fd.pipe` goes through these options, and sets the flags that they name. -/
structure ReadsOptions (m : Memory) (string : Seg) (options : List Seg) : Prop where
  found : ∀ fuel, (string.bytes m).count 44 + 1 < fuel → pipeOptions m fuel string = some options
  flags : ∀ fuel, (string.bytes m).count 44 + 1 < fuel → ∀ flags,
    pipeFlagLoop m fuel string flags = some (parseFlags pipeFlag (options.map (Seg.bytes m)) flags)

theorem Tokenizes.of_takenApart {m : Memory} {sep : UInt8} {string last : Seg} {tokens : List Seg}
    (apart : TakenApart m sep string tokens last) : Tokenizes m sep string tokens last where
  terminates := apart.ends
  number := apart.number
  free := by
    intro token member
    have part : token.bytes m ∈ (string.bytes m).splitOn sep := by
      rw [← apart.parts]
      exact List.mem_map_of_mem member
    exact notMem_of_mem_splitOn part
  joined := by rw [apart.parts, List.intercalate_splitOn]
  final := apart.final
  finished := by rw [segTokNext, if_pos (by rw [apart.final]; decide)]

/-- Every string is taken apart at its separators, and both splitters agree on the tokens that are not empty. -/
theorem tokenizing_is_splitting (m : Memory) (sep : UInt8) (string : Seg) (nonneg : 0 ≤ string.len) :
    ∃ tokens last, Tokenizes m sep string tokens last ∧ (sep = 44 → ReadsOptions m string (tokens.filter (0 < ·.len))) := by
  obtain ⟨tokens, last, apart⟩ : ∃ tokens last, TakenApart m sep string tokens last := takenApart_exists nonneg
  refine ⟨tokens, last, Tokenizes.of_takenApart apart, ?_⟩
  rintro rfl
  exact ⟨apart.options rfl, fun fuel enough flags => pipeFlagLoop_eq (apart.options rfl fuel enough)⟩

/-- A string with an empty token at its end and one in the middle. -/
theorem tokenizing_is_splitting_pipe :
    ∃ tokens last, Tokenizes (Memory.write (fun _ => 0) 100 (bytesOf "unix,,nonblock,")) 44 ⟨100, 15⟩ tokens last ∧
      ((44 : UInt8) = 44 →
        ReadsOptions (Memory.write (fun _ => 0) 100 (bytesOf "unix,,nonblock,")) ⟨100, 15⟩ (tokens.filter (0 < ·.len))) :=
  tokenizing_is_splitting _ 44 ⟨100, 15⟩ (by decide)

/-! ## Socket addresses -/

/-- The port behind an address: none, which is zero, or a decimal number. -/
inductive WrittenPort : Bytes → ℤ → Prop
  | none : WrittenPort [] 0
  | number {number : Bytes} {port : ℤ} (digits : denoted number = some (port, [])) : WrittenPort (58 :: number) port

/-- What is accepted is bound to the address and the port that are written, and any other port is rejected. -/
structure BindsAsWritten (string : Bytes) : Prop where
  exact : ∀ addr, Sockaddr.strsegParseSockaddr dottedQuad .inet string = some (addr, []) →
    ∃ host rest quad sinPort, addr = .inet quad sinPort ∧ string = host ++ rest ∧ WrittenHost host quad ∧
      WrittenPort rest (htons sinPort).toNat
  rejects : ∀ host rest quad port, string = host ++ rest → WrittenHost host quad → WrittenPort rest port →
    ¬(0 ≤ port ∧ port ≤ 65535) → ∀ addr, Sockaddr.strsegParseSockaddr dottedQuad .inet string ≠ some (addr, [])

/-- A number behind the colon is a port. -/
def PortInRange (string : Bytes) : Prop :=
  ∀ host number quad port, string = host ++ 58 :: number → WrittenHost host quad → denoted number = some (port, []) →
    0 ≤ port ∧ port ≤ 65535

/-- An address is bound as it is written if and only if the number of its port is in range: any other number is accepted too,
and reduced to 16 bits. -/
theorem sockaddr_written_iff (string : Bytes) : BindsAsWritten string ↔ PortInRange string := by
  constructor
  · intro binds host number quad port whole written digits
    by_contra outside
    have parsed := parsesTo_iff.mpr ⟨host, _, quad, whole, written, .number digits⟩
    exact binds.rejects host _ quad port whole written (.number digits) outside _ parsed
  · intro inRange
    constructor
    · intro addr parsed
      obtain ⟨host, rest, quad, whole, written, reads⟩ := parsesTo_iff.mp parsed
      cases reads with
      | none => exact ⟨host, [], quad, 0, rfl, whole, written, .none⟩
      | @number number port digits =>
        obtain ⟨low, high⟩ := inRange host number quad port whole written digits
        have sent := htons_sinPort port
        rw [Int.emod_eq_of_lt low (by omega)] at sent
        refine ⟨host, _, quad, _, rfl, whole, written, ?_⟩
        rw [sent]
        exact .number digits
    · intro host rest quad port whole written reads outside addr parsed
      cases reads with
      | none => exact outside (by decide)
      | @number number port digits => exact outside (inRange host number quad port whole written digits)

/-- Port 65536 becomes 0, port -1 becomes 65535, and a number beyond 64 bits becomes port 80. -/
theorem port_truncated :
    Sockaddr.strsegParseSockaddr dottedQuad .inet (bytesOf "127.0.0.1:65536") = some (.inet ⟨127, 0, 0, 1⟩ (htons 0), []) ∧
      Sockaddr.strsegParseSockaddr dottedQuad .inet (bytesOf "*:-1") = some (.inet inaddrAny (htons 65535), []) ∧
      Sockaddr.strsegParseSockaddr dottedQuad .inet (bytesOf "*:18446744073709551696") = some (.inet inaddrAny (htons 80), []) ∧
      ¬BindsAsWritten (bytesOf "127.0.0.1:65536") := by
  have accepted : Sockaddr.strsegParseSockaddr dottedQuad .inet (bytesOf "127.0.0.1:65536") =
      some (.inet ⟨127, 0, 0, 1⟩ (htons 0), []) := by decide +kernel
  refine ⟨accepted, by decide +kernel, by decide +kernel, fun binds => ?_⟩
  have text : bytesOf "127.0.0.1:65536" = quadText ⟨127, 0, 0, 1⟩ ++ 58 :: bytesOf "65536" := by decide +kernel
  have digits : denoted (bytesOf "65536") = some (65536, []) := by decide +kernel
  exact binds.rejects _ _ _ 65536 text (.quad _) (.number digits) (by decide) _ accepted

end DaemonProxy.Soundness
