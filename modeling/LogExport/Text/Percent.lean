import LogExport.Text.Digits
import LogExport.Text.Utf8

/-! Bytes written as a percent sign and two hexadecimal digits. -/

namespace LogExport

/-- The bytes of a text. A percent sign with two digits stands for one byte, any
other for itself. -/
def percentDecode : List Char → Bytes
  | '%' :: a :: b :: r =>
    match Digits.hexValue? a, Digits.hexValue? b with
    | some x, some y => UInt8.ofNat (16 * x + y) :: percentDecode r
    | _, _ => 0x25 :: percentDecode (a :: b :: r)
  | c :: r => Utf8.encode (String.singleton c) ++ percentDecode r
  | [] => []

end LogExport
