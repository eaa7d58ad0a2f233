import Dispatch.Json.Basic

/-!
# Strings in JSON

A string is read with its escapes resolved, skipped without that, and written with as few escapes as the
rules allow.
-/

namespace Dispatch.Json

/-- The byte a short escape stands for. -/
def shortEscape? (b : UInt8) : Option UInt8 :=
  if b = byte '"' then some 34
  else if b = byte '\\' then some 92
  else if b = byte '/' then some 47
  else if b = byte 'b' then some 8
  else if b = byte 'f' then some 12
  else if b = byte 'n' then some 10
  else if b = byte 'r' then some 13
  else if b = byte 't' then some 9
  else none

def hexValue? (b : UInt8) : Option Nat :=
  if isDigit b then some (b.toNat - 48)
  else if 65 ≤ b && b ≤ 70 then some (b.toNat - 55)
  else if 97 ≤ b && b ≤ 102 then some (b.toNat - 87)
  else none

def hexValue4? (a b c d : UInt8) : Option Nat := do
  return 4096 * (← hexValue? a) + 256 * (← hexValue? b) + 16 * (← hexValue? c) + (← hexValue? d)

def codePoint (code : Nat) : Bytes :=
  (Char.ofNat code).toString.toUTF8.toList.reverse

/-- Reads a string after its opening quote, onto the bytes read before, the last one first. A code point
above the basic plane is escaped by a pair of surrogates. -/
def readString (done : Bytes) : Bytes → Except Fault (Bytes × Bytes)
  | [] => .error .cutShort
  | b :: text =>
    if b = byte '"' then .ok (done.reverse, text)
    else if b < 32 then .error .malformed
    else if b ≠ byte '\\' then readString (b :: done) text
    else
      match text with
      | [] => .error .cutShort
      | e :: text =>
        if e ≠ byte 'u' then
          match shortEscape? e with
          | some c => readString (c :: done) text
          | none => .error .malformed
        else
          match text with
          | h₁ :: h₂ :: h₃ :: h₄ :: text =>
            match hexValue4? h₁ h₂ h₃ h₄ with
            | none => .error .malformed
            | some high =>
              if high < 0xD800 || 0xDFFF < high then readString (codePoint high ++ done) text
              else if 0xDC00 ≤ high then .error .malformed
              else
                match text with
                | [] => .error .cutShort
                | backslash :: text =>
                  if backslash ≠ byte '\\' then .error .malformed
                  else
                    match text with
                    | [] => .error .cutShort
                    | u :: text =>
                      if u ≠ byte 'u' then .error .malformed
                      else
                        match text with
                        | l₁ :: l₂ :: l₃ :: l₄ :: text =>
                          match hexValue4? l₁ l₂ l₃ l₄ with
                          | none => .error .malformed
                          | some low =>
                            if low < 0xDC00 || 0xDFFF < low then .error .malformed
                            else
                              let code := 0x10000 + 1024 * (high - 0xD800) + (low - 0xDC00)
                              readString (codePoint code ++ done) text
                        | _ => .error .cutShort
          | _ => .error .cutShort

/-- Skips a string after its opening quote. Surrogates need not be paired. -/
def skipString : Bytes → Except Fault Bytes
  | [] => .error .cutShort
  | b :: text =>
    if b = byte '"' then .ok text
    else if b < 32 then .error .malformed
    else if b ≠ byte '\\' then skipString text
    else
      match text with
      | [] => .error .cutShort
      | e :: text =>
        if e ≠ byte 'u' then
          if (shortEscape? e).isSome then skipString text else .error .malformed
        else
          match text with
          | h₁ :: h₂ :: h₃ :: h₄ :: text =>
            if (hexValue4? h₁ h₂ h₃ h₄).isSome then skipString text else .error .malformed
          | _ => .error .cutShort

/-- A character of a string, as it is written. -/
def escaped (c : Char) : String :=
  if c = '"' then "\\\""
  else if c = '\\' then "\\\\"
  else if c = '\x08' then "\\b"
  else if c = '\x0c' then "\\f"
  else if c = '\n' then "\\n"
  else if c = '\r' then "\\r"
  else if c = '\t' then "\\t"
  else if c.toNat < 32 then
    "\\u00" ++ String.ofList [(c.toNat / 16).digitChar, (c.toNat % 16).digitChar]
  else c.toString

/-- A string, as it is written. -/
def quoted (text : String) : String :=
  "\"" ++ String.join (text.toList.map escaped) ++ "\""

end Dispatch.Json
