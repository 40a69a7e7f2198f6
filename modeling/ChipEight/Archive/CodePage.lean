/-
This file decodes the names of archived files.
-/
import ChipEight.Text.Utf8

namespace ChipEight.CodePage

/-- The bytes from 128 on stand for these characters. -/
def upperHalf : String :=
  "ÇüéâäàåçêëèïîìÄÅÉæÆôöòûùÿÖÜ¢£¥₧ƒáíóúñÑªº¿⌐¬½¼¡«»░▒▓│┤╡╢╖╕╣║╗╝╜╛┐└┴┬├─┼╞╟╚╔╩╦╠═╬╧╨╤╥╙╘╒╓╫╪┘┌█▄▌▐▀" ++
  "αßΓπΣσµτΦΘΩδ∞φε∩≡±≥≤⌠⌡÷≈°∙·√ⁿ²■\u00a0"

def char (byte : UInt8) : Char :=
  if byte < 128 then Char.ofNat byte.toNat
  else (upperHalf.toList[byte.toNat - 128]?).getD ' '

def isAscii (bytes : List UInt8) : Bool :=
  bytes.all (· < 128)

/-- A name is in UTF-8 if it says so, and in the code page 437 if not; both agree on ASCII. -/
def decode (unicode : Bool) (bytes : List UInt8) : String :=
  if unicode || isAscii bytes then Utf8.decode bytes else String.ofList (bytes.map char)

end ChipEight.CodePage
