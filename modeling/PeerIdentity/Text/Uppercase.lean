/-!
# Upper case

Names and base32 digits are compared in upper case. Besides the ASCII letters there are ten
characters whose upper-case forms are ASCII letters, namely the dotless `ı`, the long `ſ`, the sharp
`ß` and the Latin ligatures. The upper-case form of any other character contains a character
outside ASCII.

* `upperAscii`: the upper-case form of a text, as far as it is ASCII.
-/

namespace PeerIdentity

/-- The upper-case form of a character, when that is ASCII, and the character itself otherwise. -/
def upperChar (c : Char) : List Char :=
  if 'a' ≤ c ∧ c ≤ 'z' then [Char.ofNat (c.toNat - 32)]
  else
    match c.toNat with
    | 0x00df => ['S', 'S']
    | 0x0131 => ['I']
    | 0x017f => ['S']
    | 0xfb00 => ['F', 'F']
    | 0xfb01 => ['F', 'I']
    | 0xfb02 => ['F', 'L']
    | 0xfb03 => ['F', 'F', 'I']
    | 0xfb04 => ['F', 'F', 'L']
    | 0xfb05 => ['S', 'T']
    | 0xfb06 => ['S', 'T']
    | _ => [c]

/-- The upper-case form of a text, in which a character whose form is not ASCII stands for
itself. -/
def upperAscii (s : List Char) : List Char :=
  s.flatMap upperChar

end PeerIdentity
