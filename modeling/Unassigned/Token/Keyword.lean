import Unassigned.Text.LowerCase

/-!
# `Token.Keyword` — the reserved words of PHP

A word is reserved whatever its case. Two spellings, `die` and `exit`, are one keyword.
-/

namespace Unassigned

/-- The reserved words. -/
inductive Keyword where
  | abstractWord | arrayWord | asWord | breakWord | callableWord | caseWord | catchWord | classWord
  | cloneWord | constWord | continueWord | declareWord | defaultWord | doWord | echoWord | elseWord
  | elseifWord | emptyWord | enddeclareWord | endforWord | endforeachWord | endifWord
  | endswitchWord | endwhileWord | evalWord | exitWord | extendsWord | finalWord | finallyWord
  | fnWord | forWord | foreachWord | functionWord | globalWord | gotoWord | ifWord | implementsWord
  | includeWord | includeOnceWord | instanceofWord | insteadofWord | interfaceWord | issetWord
  | listWord | logicalAndWord | logicalOrWord | logicalXorWord | matchWord | namespaceWord
  | newWord | printWord | privateWord | protectedWord | publicWord | readonlyWord | requireWord
  | requireOnceWord | returnWord | staticWord | switchWord | throwWord | traitWord | tryWord
  | unsetWord | useWord | varWord | whileWord | yieldWord
  deriving DecidableEq, Repr

namespace Keyword

/-- Reserved words in lower case, with the keyword each of them spells. -/
def spellings : List (String × Keyword) := [
  ("abstract", .abstractWord), ("and", .logicalAndWord), ("array", .arrayWord), ("as", .asWord),
  ("break", .breakWord), ("callable", .callableWord), ("case", .caseWord), ("catch", .catchWord),
  ("class", .classWord), ("clone", .cloneWord), ("const", .constWord), ("continue", .continueWord),
  ("declare", .declareWord), ("default", .defaultWord), ("die", .exitWord), ("do", .doWord),
  ("echo", .echoWord), ("else", .elseWord), ("elseif", .elseifWord), ("empty", .emptyWord),
  ("enddeclare", .enddeclareWord), ("endfor", .endforWord), ("endforeach", .endforeachWord),
  ("endif", .endifWord), ("endswitch", .endswitchWord), ("endwhile", .endwhileWord),
  ("eval", .evalWord), ("exit", .exitWord), ("extends", .extendsWord), ("final", .finalWord),
  ("finally", .finallyWord), ("fn", .fnWord), ("for", .forWord), ("foreach", .foreachWord),
  ("function", .functionWord), ("global", .globalWord), ("goto", .gotoWord), ("if", .ifWord),
  ("implements", .implementsWord), ("include", .includeWord), ("include_once", .includeOnceWord),
  ("instanceof", .instanceofWord), ("insteadof", .insteadofWord), ("interface", .interfaceWord),
  ("isset", .issetWord), ("list", .listWord), ("match", .matchWord), ("namespace", .namespaceWord),
  ("new", .newWord), ("or", .logicalOrWord), ("print", .printWord), ("private", .privateWord),
  ("protected", .protectedWord), ("public", .publicWord), ("readonly", .readonlyWord),
  ("require", .requireWord), ("require_once", .requireOnceWord), ("return", .returnWord),
  ("static", .staticWord), ("switch", .switchWord), ("throw", .throwWord), ("trait", .traitWord),
  ("try", .tryWord), ("unset", .unsetWord), ("use", .useWord), ("var", .varWord),
  ("while", .whileWord), ("xor", .logicalXorWord), ("yield", .yieldWord)]

/-- The keyword a word spells, in any case. -/
def ofText? (text : String) : Option Keyword :=
  spellings.lookup (Text.lower text)

/-- The name of a keyword's token kind. -/
def label : Keyword → String
  | .abstractWord => "T_ABSTRACT"
  | .arrayWord => "T_ARRAY"
  | .asWord => "T_AS"
  | .breakWord => "T_BREAK"
  | .callableWord => "T_CALLABLE"
  | .caseWord => "T_CASE"
  | .catchWord => "T_CATCH"
  | .classWord => "T_CLASS"
  | .cloneWord => "T_CLONE"
  | .constWord => "T_CONST"
  | .continueWord => "T_CONTINUE"
  | .declareWord => "T_DECLARE"
  | .defaultWord => "T_DEFAULT"
  | .doWord => "T_DO"
  | .echoWord => "T_ECHO"
  | .elseWord => "T_ELSE"
  | .elseifWord => "T_ELSEIF"
  | .emptyWord => "T_EMPTY"
  | .enddeclareWord => "T_ENDDECLARE"
  | .endforWord => "T_ENDFOR"
  | .endforeachWord => "T_ENDFOREACH"
  | .endifWord => "T_ENDIF"
  | .endswitchWord => "T_ENDSWITCH"
  | .endwhileWord => "T_ENDWHILE"
  | .evalWord => "T_EVAL"
  | .exitWord => "T_EXIT"
  | .extendsWord => "T_EXTENDS"
  | .finalWord => "T_FINAL"
  | .finallyWord => "T_FINALLY"
  | .fnWord => "T_FN"
  | .forWord => "T_FOR"
  | .foreachWord => "T_FOREACH"
  | .functionWord => "T_FUNCTION"
  | .globalWord => "T_GLOBAL"
  | .gotoWord => "T_GOTO"
  | .ifWord => "T_IF"
  | .implementsWord => "T_IMPLEMENTS"
  | .includeWord => "T_INCLUDE"
  | .includeOnceWord => "T_INCLUDE_ONCE"
  | .instanceofWord => "T_INSTANCEOF"
  | .insteadofWord => "T_INSTEADOF"
  | .interfaceWord => "T_INTERFACE"
  | .issetWord => "T_ISSET"
  | .listWord => "T_LIST"
  | .logicalAndWord => "T_LOGICAL_AND"
  | .logicalOrWord => "T_LOGICAL_OR"
  | .logicalXorWord => "T_LOGICAL_XOR"
  | .matchWord => "T_MATCH"
  | .namespaceWord => "T_NAMESPACE"
  | .newWord => "T_NEW"
  | .printWord => "T_PRINT"
  | .privateWord => "T_PRIVATE"
  | .protectedWord => "T_PROTECTED"
  | .publicWord => "T_PUBLIC"
  | .readonlyWord => "T_READONLY"
  | .requireWord => "T_REQUIRE"
  | .requireOnceWord => "T_REQUIRE_ONCE"
  | .returnWord => "T_RETURN"
  | .staticWord => "T_STATIC"
  | .switchWord => "T_SWITCH"
  | .throwWord => "T_THROW"
  | .traitWord => "T_TRAIT"
  | .tryWord => "T_TRY"
  | .unsetWord => "T_UNSET"
  | .useWord => "T_USE"
  | .varWord => "T_VAR"
  | .whileWord => "T_WHILE"
  | .yieldWord => "T_YIELD"

end Keyword

end Unassigned
