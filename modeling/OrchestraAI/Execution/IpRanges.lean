import Mathlib.Data.Nat.Bitwise
import OrchestraAI.Execution.Workspace

/-! # Blocked addresses

`blockedIpReason` of `execution/environment.js` and the parsing of addresses under it.
-/

namespace OrchestraAI.Execution

/-- `/^\d{least,most}$/`, with its value. -/
def decimal (most : Nat) (p : Text) : Option Nat :=
  if p ≠ [] ∧ p.length ≤ most ∧ p.all Char.isDigit then
    some (p.foldl (fun n c => n * 10 + (c.toNat - '0'.toNat)) 0)
  else none

def octets : List Text → Nat → Option Nat
  | [], n => some n
  | p :: parts, n => (decimal 3 p).bind fun v => if v > 255 then none else octets parts (n * 256 + v)

def ipv4ToInt (ip : Text) : Option Nat :=
  let parts := ip.splitOn '.'
  if parts.length ≠ 4 then none else octets parts 0

/-- `(0xffffffff << (32 - bits)) >>> 0`. -/
def mask (bits : Nat) : Nat := (0xffffffff <<< (32 - bits)) % 2 ^ 32

def ipv4InCidr (ip base : Text) (bits : Nat) : Bool :=
  match ipv4ToInt ip, ipv4ToInt base with
  | some a, some b => bits = 0 || (a &&& mask bits) = (b &&& mask bits)
  | _, _ => false

/-- `BLOCKED_V4`. -/
def blockedV4 : List (String × Nat × String) :=
  [("127.0.0.0", 8, "loopback"), ("10.0.0.0", 8, "rfc1918"), ("172.16.0.0", 12, "rfc1918"),
    ("192.168.0.0", 16, "rfc1918"), ("169.254.0.0", 16, "link-local"),
    ("224.0.0.0", 4, "multicast"), ("0.0.0.0", 8, "unspecified"),
    ("255.255.255.255", 32, "broadcast"), ("240.0.0.0", 4, "reserved"),
    ("100.64.0.0", 10, "shared-cgnat"), ("192.0.2.0", 24, "documentation"),
    ("198.51.100.0", 24, "documentation"), ("203.0.113.0", 24, "documentation"),
    ("192.88.99.0", 24, "reserved-relay")]

/-- The longest end of the text that is four groups of digits with dots between them. -/
def embeddedV4 (s : Text) : Option Text :=
  s.tails.find? fun t =>
    let parts := t.splitOn '.'
    parts.length = 4 && parts.all fun p => p ≠ [] && p.all Char.isDigit

/-- `split('::')`. -/
def splitDoubleColon : Text → List Text
  | ':' :: ':' :: s => [] :: splitDoubleColon s
  | c :: s =>
    match splitDoubleColon s with
    | [] => [[c]]
    | first :: others => (c :: first) :: others
  | [] => [[]]

attribute [grind =] splitDoubleColon

def parseGroup (g : Text) : List Text := (g.splitOn ':').filter (· ≠ [])

def hexDigit (c : Char) : Option Nat :=
  if c.isDigit then some (c.toNat - '0'.toNat)
  else if 'a' ≤ c && c ≤ 'f' then some (c.toNat - 'a'.toNat + 10)
  else none

/-- `/^[0-9a-f]{1,4}$/`, with its value. -/
def hexGroup (g : Text) : Option Nat :=
  if g = [] ∨ 4 < g.length then none
  else g.foldlM (fun n c => (hexDigit c).map fun d => n * 16 + d) 0

def ipv6Groups (halves : List Text) (embedded : Option Nat) : Option (List Nat) :=
  let groups : Option (List Text) :=
    match halves with
    | [all] => some (parseGroup all)
    | [left, right] =>
      let present := (parseGroup left).length + (parseGroup right).length +
        if embedded.isSome then 2 else 0
      if 8 < present then none
      else some (parseGroup left ++ List.replicate (8 - present) ['0'] ++ parseGroup right)
    | _ => none
  groups.bind fun groups =>
    match embedded with
    | some v4 =>
      if groups.length ≠ 6 then none
      else (groups.mapM hexGroup).map (· ++ [v4 >>> 16, v4 &&& 0xffff])
    | none => if groups.length ≠ 8 then none else groups.mapM hexGroup

def ipv6ToBigInt (ip : Text) : Option Nat :=
  let s := (ip.map Char.toLower).takeWhile (· ≠ '%')
  let s := if ['['].isPrefixOf s && [']'].isSuffixOf s then (s.drop 1).dropLast else s
  let groups :=
    match embeddedV4 s with
    | some v4 => (ipv4ToInt v4).bind fun n =>
      ipv6Groups (splitDoubleColon (s.take (s.length - v4.length))) (some n)
    | none => ipv6Groups (splitDoubleColon s) none
  groups.map fun groups => groups.foldl (fun out g => (out <<< 16) + g) 0

def ipv6InCidr (ipInt : Nat) (base : Text) (bits : Nat) : Bool :=
  match ipv6ToBigInt base with
  | some b => bits = 0 || ipInt >>> (128 - bits) = b >>> (128 - bits)
  | none => false

/-- `BLOCKED_V6`. -/
def blockedV6 : List (String × Nat × String) :=
  [("::1", 128, "loopback"), ("::", 128, "unspecified"), ("fe80::", 10, "link-local"),
    ("fc00::", 7, "unique-local"), ("ff00::", 8, "multicast"), ("2001:db8::", 32, "documentation"),
    ("::ffff:0:0", 96, "ipv4-mapped"), ("2002::", 16, "6to4-transition"),
    ("2001::", 32, "teredo-transition"), ("64:ff9b::", 96, "translation"),
    ("100::", 64, "discard"), ("::", 96, "ipv4-compatible")]

def blockedV4Reason (ip : Text) : Option String :=
  (blockedV4.find? fun range => ipv4InCidr ip range.1.toList range.2.1).map fun range => range.2.2

def innerV4 (n : Nat) : Text :=
  let byte (shift : Nat) : Text := (toString ((n >>> shift) &&& 255)).toList
  byte 24 ++ '.' :: byte 16 ++ '.' :: byte 8 ++ '.' :: byte 0

def blockedV6Reason (n : Nat) : Option String :=
  (blockedV6.find? fun range => ipv6InCidr n range.1.toList range.2.1).map fun range =>
    let reason := range.2.2
    if reason = "ipv4-mapped" ∨ reason = "ipv4-compatible" then
      match blockedV4Reason (innerV4 n) with
      | some innerReason => reason ++ "-" ++ innerReason
      | none => reason
    else reason

/-- `isIP` is that of the module `net`: the version of an address, and 0 of another text. -/
def blockedIpReason (isIP : Text → Nat) (ip : Text) : Option String :=
  match isIP ip with
  | 4 => blockedV4Reason ip
  | 6 =>
    match ipv6ToBigInt ip with
    | some n => blockedV6Reason n
    | none => some "malformed-ip"
  | _ => some "not-an-ip"

theorem testBit_mask (bits i : Nat) :
    (mask bits).testBit i = decide (32 - bits ≤ i ∧ i < 32) := by
  have hOnes : 0xffffffff = 2 ^ 32 - 1 := rfl
  rw [mask, Nat.testBit_mod_two_pow, Nat.testBit_shiftLeft, hOnes, Nat.testBit_two_pow_sub_one,
    Bool.eq_iff_iff]
  simp only [Bool.and_eq_true, decide_eq_true_eq]
  omega

theorem masked_eq_iff {a b : Nat} (ha : a < 2 ^ 32) (hb : b < 2 ^ 32) (bits : Nat) :
    a &&& mask bits = b &&& mask bits ↔ a >>> (32 - bits) = b >>> (32 - bits) := by
  constructor
  · intro h
    refine Nat.eq_of_testBit_eq fun i => ?_
    rw [Nat.testBit_shiftRight, Nat.testBit_shiftRight]
    by_cases hi : 32 - bits + i < 32
    · have hBit := congrArg (Nat.testBit · (32 - bits + i)) h
      simpa [Nat.testBit_and, testBit_mask, hi] using hBit
    · have hHigh : 2 ^ 32 ≤ 2 ^ (32 - bits + i) := Nat.pow_le_pow_right (by decide) (by omega)
      rw [Nat.testBit_lt_two_pow (ha.trans_le hHigh), Nat.testBit_lt_two_pow (hb.trans_le hHigh)]
  · intro h
    refine Nat.eq_of_testBit_eq fun i => ?_
    rw [Nat.testBit_and, Nat.testBit_and, testBit_mask]
    by_cases hi : 32 - bits ≤ i
    · obtain ⟨j, rfl⟩ := Nat.exists_eq_add_of_le hi
      have hBit := congrArg (Nat.testBit · j) h
      rw [Nat.testBit_shiftRight, Nat.testBit_shiftRight] at hBit
      rw [hBit]
    · have hLow : ¬ (32 - bits ≤ i ∧ i < 32) := fun h => hi h.1
      rw [decide_eq_false hLow, Bool.and_false, Bool.and_false]

example : blockedIpReason (fun _ => 6) "::ffff:127.0.0.1".toList = some "ipv4-mapped-loopback" := by
  decide +kernel

end OrchestraAI.Execution
