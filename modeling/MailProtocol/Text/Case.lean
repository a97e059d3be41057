/-!
# Text up to ASCII case

Names in the protocols are compared without regard to the case of ASCII letters and of no other
characters. `Text.upper` is the form that equal names share.
-/

namespace MailProtocol.Text

/-- The text with its ASCII letters in upper case. -/
def upper (s : String) : String := String.ofList (s.toList.map Char.toUpper)

/-- Equality up to the case of ASCII letters. -/
def eqIgnoreCase (s t : String) : Bool := upper s == upper t

end MailProtocol.Text
