import LessTheme.Text.Basic

/-!
# Literal strings

A stylesheet passes a text on unread when it stands in a literal string:
a tilde and the text between double or single quotes.
-/

namespace LessTheme
namespace Text

/--
The text as a literal string.  Double quotes are used unless the text holds
one; a text that holds both kinds of quote has no literal form.
-/
def literal? (text : Text) : Option Text :=
  if text.contains '"' then
    if text.contains '\'' then none else some ('~' :: '\'' :: (text ++ ['\'']))
  else some ('~' :: '"' :: (text ++ ['"']))

end Text
end LessTheme
