/-!
# The order of texts

Wherever an answer is sorted it is sorted by code points, which is the order of `String`.
-/

namespace BlockingCalls.Text

def sorted (texts : List String) : List String :=
  texts.mergeSort fun a b => !decide (b < a)

end BlockingCalls.Text
