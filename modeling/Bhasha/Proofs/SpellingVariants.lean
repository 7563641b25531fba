import Mathlib
import Bhasha.Proofs.StmtSoundness
import Bhasha.Proofs.TokenRendering
import Bhasha.Proofs.TokenScanning

namespace Bhasha

open Face

/-- The second list is the first one, but for things that a tree leaves open: `maan` before an
assignment, a comma before what closes a literal, and empty parentheses that are not written. -/
inductive Variant : List Face → List Face → Prop
  | refl (fs) : Variant fs fs
  | append {fs fs' gs gs'} : Variant fs gs → Variant fs' gs' → Variant (fs ++ fs') (gs ++ gs')
  | declared (x) : Variant [name x, word .assign] [word .letVar, name x, word .assign]
  | trailing {k} : k = .rbracket ∨ k = .rbrace → Variant [word k] [word .comma, word k]
  | newBare (x) :
    Variant [word .new, name x, word .lparen, word .rparen] [word .new, name x]
  | superBare (x) :
    Variant [word .super, word .dot, name x, word .lparen, word .rparen]
      [word .super, word .dot, name x]

abbrev Faced (fs : List Face) (ts : List Token) : Prop :=
  Variant fs (ts.map Token.face)

section

variable {fs fs' : List Face} {ts us : List Token} {t : Token} {k : TokenKind} {x : String}

theorem Token.Is.face (h : t.Is k) : t.face = word k := by
  rw [Token.face, h.kind, h.value, word]

theorem Token.Names.face (h : t.Names x) : t.face = name x := by
  rw [Token.face, h.kind, h.value, name]

namespace Faced

theorem append (h : Faced fs ts) (h' : Faced fs' us) : Faced (fs ++ fs') (ts ++ us) := by
  rw [Faced, List.map_append]
  exact .append h h'

theorem word (ht : t.Is k) (h : Faced fs ts) : Faced (word k :: fs) (t :: ts) := by
  rw [Faced, List.map_cons, ht.face]
  exact .append (.refl [Face.word k]) h

theorem name (ht : t.Names x) (h : Faced fs ts) : Faced (name x :: fs) (t :: ts) := by
  rw [Faced, List.map_cons, ht.face]
  exact .append (.refl [Face.name x]) h

theorem closed (ht : t.Is k) (h : Faced fs ts) : Faced (fs ++ [Face.word k]) (ts ++ [t]) :=
  h.append (word ht (.refl []))

end Faced

end

section

variable {α : Type} {R : α → List Token → Prop} {L : α → List Face} {as : List α}
  {ts : List Token} {k : TokenKind}

theorem Following.faced (hR : ∀ a ∈ as, ∀ us, R a us → Faced (L a) us)
    (h : Following R as ts) : Faced ((as.map L).flatMap (word .comma :: ·)) ts := by
  induction h with
  | nil => exact .refl []
  | cons hcomma ha _ ih =>
    refine (Faced.word hcomma (hR _ List.mem_cons_self _ ha)).append (ih fun b hb => ?_)
    exact hR b (List.mem_cons_of_mem _ hb)

theorem Separated.faced (hR : ∀ a ∈ as, ∀ us, R a us → Faced (L a) us)
    (h : Separated R as ts) : Faced (joined (as.map L)) ts := by
  cases h with
  | mk ha hs =>
    exact Faced.append (hR _ List.mem_cons_self _ ha) (hs.faced fun b hb => hR b (.tail _ hb))

theorem Enclosed.faced (hR : ∀ a ∈ as, ∀ us, R a us → Faced (L a) us)
    (h : Enclosed R as ts) : Faced (joined (as.map L) ++ [word .rparen]) ts := by
  cases h with
  | none hc => exact .word hc (.refl [])
  | items hs hc => exact .closed hc (hs.faced hR)

theorem Enclosed.faced_arguments {t : Token} (ht : t.Is .lparen)
    (hR : ∀ a ∈ as, ∀ us, R a us → Faced (L a) us) (h : Enclosed R as ts) :
    Faced (arguments (as.map L)) (t :: ts) :=
  .word ht (h.faced hR)

theorem Listed.faced (hk : k = .rbracket ∨ k = .rbrace)
    (hR : ∀ a ∈ as, ∀ us, R a us → Faced (L a) us) (h : Listed R k as ts) :
    Faced (joined (as.map L) ++ [word k]) ts := by
  cases h with
  | none hc => exact .word hc (.refl [])
  | items hs hc => exact .closed hc (hs.faced hR)
  | trailing hs hcomma hc =>
    refine (hs.faced hR).append ?_
    rw [Faced, List.map_cons, List.map_cons, hcomma.face, hc.face]
    exact .trailing hk

theorem Sequence.faced (hR : ∀ a ∈ as, ∀ us, R a us → Faced (L a) us)
    (h : Sequence R as ts) : Faced (as.flatMap L) ts := by
  induction h with
  | nil => exact .refl []
  | cons ha _ ih =>
    rw [List.flatMap_cons]
    exact Faced.append (hR _ List.mem_cons_self _ ha) (ih fun b hb => hR b (.tail _ hb))

theorem Block.faced (hR : ∀ a ∈ as, ∀ us, R a us → Faced (L a) us)
    (h : Block R as ts) : Faced (as.flatMap L ++ [word .rbrace]) ts := by
  induction h with
  | close hc => exact .word hc (.refl [])
  | cons ha _ ih =>
    rw [List.flatMap_cons, List.append_assoc]
    exact Faced.append (hR _ List.mem_cons_self _ ha) (ih fun b hb => hR b (.tail _ hb))

end

theorem NameSpelled.faced {x : String} {ts : List Token} (h : NameSpelled x ts) :
    Faced [name x] ts := by
  cases h with
  | mk hx => exact .name hx (.refl [])

theorem ParametersSpelled.faced {xs : List String} {ts : List Token}
    (h : ParametersSpelled xs ts) : Faced (joined (xs.map fun x => [name x])) ts := by
  cases h with
  | none => exact .refl []
  | some hs => exact hs.faced fun x _ us hx => hx.faced

theorem BinaryOp.face_of_tokenKind? {op : BinaryOp} {k : TokenKind} (h : op.tokenKind? = some k) :
    op.face = word k := by
  rw [BinaryOp.face, h, Option.getD_some]

theorem UnaryOp.face_of_tokenKind? {op : UnaryOp} {k : TokenKind} (h : op.tokenKind? = some k) :
    op.face = word k := by
  rw [UnaryOp.face, h, Option.getD_some]

theorem Expr.Spelled.faced {e : Expr} {ts : List Token} (h : e.Spelled ts) : Faced e.faces ts := by
  induction e using Expr.induct generalizing ts with
  | literal k v l =>
    cases h with
    | @literal _ t ht =>
      rw [Expr.faces, ← ht]
      exact .refl [t.face]
  | list es l ih =>
    cases h with
    | list ht hs =>
      rw [Expr.faces, Expr.facesAll_eq_map]
      exact .word ht (hs.faced (.inl rfl) fun e he us h => ih e he h)
  | dict ps l ih =>
    cases h with
    | dict ht hs =>
      rw [Expr.faces, Expr.facesPairs_eq_map]
      refine .word ht (hs.faced (.inr rfl) fun p hp us h => ?_)
      cases h with
      | mk hk hc hv => exact Faced.append ((ih _ hp).1 hk) (.word hc ((ih _ hp).2 hv))
  | var x l =>
    cases h with
    | var hx => exact .name hx (.refl [])
  | binary op a b l iha ihb =>
    cases h with
    | binary hop ha ht hb =>
      rw [Expr.faces, BinaryOp.face_of_tokenKind? hop]
      exact Faced.append (iha ha) (.word ht (ihb hb))
  | unary op a l ih =>
    cases h with
    | unary hop ht ha =>
      rw [Expr.faces, UnaryOp.face_of_tokenKind? hop]
      exact .word ht (ih ha)
  | paren a l ih =>
    cases h with
    | paren ht ha hc => exact .closed hc (.word ht (ih ha))
  | call x es l ih =>
    cases h with
    | call hx ht hs =>
      rw [Expr.faces, Expr.facesAll_eq_map]
      exact .name hx (hs.faced_arguments ht fun e he us h => ih e he h)
  | lambda xs b l ih =>
    cases h with
    | lambda ht hxs hc hb => exact (Faced.word ht hxs.faced).append (.word hc (ih hb))
  | newObject x es l ih =>
    cases h with
    | @newObject _ _ _ t x' ht hx hs =>
      rw [Expr.faces, Expr.facesAll_eq_map]
      cases hs with
      | none =>
        rw [Faced, List.map_cons, List.map_cons, ht.face, hx.face]
        exact .newBare x
      | items ho hs => exact .word ht (.name hx (hs.faced_arguments ho fun e he us h => ih e he h))
  | method a x es l iha ih =>
    cases h with
    | method ha ht hx ho hs =>
      rw [Expr.faces, Expr.facesAll_eq_map]
      exact Faced.append (iha ha)
        (.word ht (.name hx (hs.faced_arguments ho fun e he us h => ih e he h)))
  | property a x l ih =>
    cases h with
    | property ha ht hx => exact Faced.append (ih ha) (.word ht (.name hx (.refl [])))
  | thisObject l =>
    cases h with
    | thisObject ht => exact .word ht (.refl [])
  | superCall x es l ih =>
    cases h with
    | superCall ht hdot hx hs =>
      rw [Expr.faces, Expr.facesAll_eq_map]
      cases hs with
      | none =>
        rw [Faced, List.map_cons, List.map_cons, List.map_cons, ht.face, hdot.face, hx.face]
        exact .superBare x
      | items ho hs =>
        exact .word ht (.word hdot (.name hx (hs.faced_arguments ho fun e he us h => ih e he h)))
  | index a i l iha ihi =>
    cases h with
    | index ha ht hi hc =>
      exact .closed hc (Faced.append (iha ha) (.word ht (ihi hi)))
  | foreign => cases h

theorem Expr.faced_arguments {es : List Expr} {t : Token} {ts : List Token} (ht : t.Is .lparen)
    (h : Enclosed Expr.Spelled es ts) : Faced (arguments (Expr.facesAll es)) (t :: ts) := by
  rw [Expr.facesAll_eq_map]
  exact h.faced_arguments ht fun e _ us h => h.faced

section

variable {ts : List Token} {t : Token} {body : List Stmt} {o : Option (List Stmt)} {k : TokenKind}

theorem Stmt.faced_block (hR : ∀ s ∈ body, ∀ us, Stmt.Spelled s us → Faced s.faces us)
    (ht : t.Is .lbrace) (h : Block Stmt.Spelled body ts) :
    Faced (block (Stmt.facesAll body)) (t :: ts) := by
  rw [Stmt.facesAll_eq_flatMap]
  exact .word ht (h.faced hR)

theorem Stmt.faced_option
    (hR : ∀ ss ∈ o, ∀ s ∈ ss, ∀ us, Stmt.Spelled s us → Faced s.faces us)
    (h : OptionallyBraced Stmt.Spelled k o ts) : Faced (Stmt.facesOption k o) ts := by
  cases h with
  | none => exact .refl []
  | some ht hb hs => exact .word ht (Stmt.faced_block (hR _ rfl) hb hs)

theorem Branch.Spelled.faced {b : Branch}
    (hR : ∀ s ∈ b.body, ∀ us, s.Spelled us → Faced s.faces us) (h : b.Spelled ts) :
    Faced b.faces ts := by
  cases h with
  | mk ht he hb hs => exact (Faced.word ht he.faced).append (Stmt.faced_block hR hb hs)

theorem FunctionDef.Spelled.faced {g : FunctionDef}
    (hR : ∀ s ∈ g.body, ∀ us, s.Spelled us → Faced s.faces us) (h : g.Spelled ts) :
    Faced g.faces ts := by
  cases h with
  | mk ht hx ho hxs hb hs =>
    have hxs := hxs.faced_arguments ho fun x _ us hx => hx.faced
    exact (Faced.word ht (.name hx hxs)).append (Stmt.faced_block hR hb hs)

end

theorem Stmt.Spelled.faced {s : Stmt} {ts : List Token} (h : s.Spelled ts) : Faced s.faces ts := by
  induction s using Stmt.induct generalizing ts with
  | expr e =>
    cases h with
    | call hx ho hs => exact .name hx (Expr.faced_arguments ho hs)
    | method hx hd hy ho hs =>
      exact .name hx (.word hd (.name hy (Expr.faced_arguments ho hs)))
  | assign x e l =>
    cases h with
    | @declare _ _ ts t _ _ ht hx hq he =>
      rw [Faced, List.map_cons, List.map_cons, List.map_cons, ht.face, hx.face, hq.face]
      exact .append (.declared x) he.faced
    | assign hx hq he => exact .name hx (.word hq he.faced)
  | setProperty a x e l =>
    cases h with
    | setThis ht hd hx hq he => exact .word ht (.word hd (.name hx (.word hq he.faced)))
    | setProperty hx hd hy hq he => exact .name hx (.word hd (.name hy (.word hq he.faced)))
  | setIndex a i e l =>
    cases h with
    | setIndex hx ho hi hc hq he =>
      exact (Faced.name hx (.word ho hi.faced)).append (.word hc (.word hq he.faced))
  | print es l =>
    cases h with
    | print ht ho hs => exact .word ht (Expr.faced_arguments ho hs)
  | input x prompt l =>
    cases h with
    | input ht hx => exact .word ht (.name hx (.refl []))
    | @inputWith _ _ _ t ht hx hp =>
      have hp : Faced [(.string, t.value)] [t] := by
        rw [← hp]
        exact .refl [t.face]
      exact .word ht (.name hx hp)
  | ifElse e body bs otherwise l ihbody ihbs iho =>
    cases h with
    | ifElse ht he hb hs hbs ho =>
      rw [Stmt.faces, Branch.facesAll_eq_flatMap]
      have hbody := Stmt.faced_block (fun s hs us h => ihbody s hs h) hb hs
      have hbs := hbs.faced fun b hb us h => h.faced fun s hs us h => ihbs b hb s hs h
      have ho := Stmt.faced_option (fun ss hss s hs us h => iho ss hss s hs h) ho
      exact (((Faced.word ht he.faced).append hbody).append hbs).append ho
  | whileLoop e body l ih =>
    cases h with
    | whileLoop ht he hb hs =>
      exact (Faced.word ht he.faced).append (Stmt.faced_block (fun s hs us h => ih s hs h) hb hs)
  | forLoop x e body l ih =>
    cases h with
    | forLoop ht hx hin he hb hs =>
      exact (Faced.word ht (.name hx (.word hin he.faced))).append
        (Stmt.faced_block (fun s hs us h => ih s hs h) hb hs)
  | breakLoop l =>
    cases h with
    | breakLoop ht => exact .word ht (.refl [])
  | continueLoop l =>
    cases h with
    | continueLoop ht => exact .word ht (.refl [])
  | function g ih =>
    cases h with
    | function hg => exact hg.faced fun s hs us h => ih s hs h
  | giveBack e? l =>
    cases h with
    | giveBack ht => exact .word ht (.refl [])
    | giveBackWith ht he => exact .word ht he.faced
  | classDef x parent gs l ih =>
    cases h with
    | classDef ht hx hp hb hs =>
      have hbody := Faced.word hb
        (hs.faced fun g hg us h => h.faced fun s hs us h => ih g hg s hs h)
      rw [← FunctionDef.facesAll_eq_flatMap] at hbody
      cases hp with
      | none => exact .word ht (.name hx hbody)
      | some he hy => exact .word ht (.name hx (.word he (.name hy hbody)))
  | attempt body x? handler finalizer l ihbody ihh ihf =>
    cases h with
    | attempt ht hb hs hf =>
      have hbody := Stmt.faced_block (fun s hs us h => ihbody s hs h) hb hs
      have hf := Stmt.faced_option (fun ss hss s hs us h => ihf ss hss s hs h) hf
      exact (Faced.word ht hbody).append hf
    | attemptWith ht hb hs hc hx hb' hh hf =>
      have hbody := Stmt.faced_block (fun s hs us h => ihbody s hs h) hb hs
      have hh := Stmt.faced_block (fun s hs us h => ihh _ rfl s hs h) hb' hh
      have hf := Stmt.faced_option (fun ss hss s hs us h => ihf ss hss s hs h) hf
      rw [List.append_assoc (_ :: _ :: _)]
      cases hx with
      | none => exact ((Faced.word ht hbody).append (.word hc hh)).append hf
      | some hx => exact ((Faced.word ht hbody).append (.word hc (.name hx hh))).append hf
  | raiseError e l =>
    cases h with
    | raiseError ht he => exact .word ht he.faced
  | importFile | foreign => cases h

namespace Parse

variable {c c' : Cursor}

theorem expression_faced {e : Expr} (hc : Complete c.tokens.toList) (h : expression c = .ok e c') :
    ∃ us, c.rest = us ++ c'.rest ∧ c' = c.skip us.length ∧ e.Spelled us ∧
      e.grammatical = true ∧ Variant e.faces (us.map Token.face) := by
  -- A cursor past the last token sees that token, the end mark.
  by_cases hindex : c.index < c.tokens.size
  · have hrest : Complete c.rest := hc.drop (by rwa [Array.length_toList])
    obtain ⟨us, htook, hs, hg, -⟩ := soundFrom_expression c e c' hrest h
    exact ⟨us, htook.rest, htook.cursor, hs, hg, hs.faced⟩
  · have hend := Cursor.current_past_end hc (Nat.le_of_not_lt hindex)
    exact absurd h (expression_ne_ok hend)

end Parse

/-- The tokens of a text that a program or an expression was read from spell it, one by one and in
order, and it leaves nothing else of them open. -/
theorem spelled_of_parsed (lang : Lang) (source : String) (ts : List Token)
    (hts : tokenize lang source = .ok ts ∨ ∃ ds, tokenizeSafe lang source = .ok (ts, ds)) :
    (∀ p, parseTokens lang ts = .ok p →
      ∃ us last, ts = us ++ [last] ∧ last.kind = .eof ∧ Sequence Stmt.Spelled p.statements us ∧
        p.grammatical = true ∧ Variant p.faces (us.map Token.face)) ∧
    ∀ c e c', c.tokens = ts.toArray → Parse.expression c = .ok e c' →
      ∃ us, c.rest = us ++ c'.rest ∧ c' = c.skip us.length ∧ e.Spelled us ∧
        e.grammatical = true ∧ Variant e.faces (us.map Token.face) := by
  have hc : Complete ts := by
    rcases hts with h | ⟨ds, h⟩
    · exact complete_of_tokenize h
    · exact complete_of_tokenizeSafe h
  constructor
  · intro p h
    unfold parseTokens at h
    split at h
    · rename_i hprogram
      cases h
      obtain ⟨us, last, rfl, hlast, hs, hg⟩ := Parse.sequence_of_program hc hprogram
      refine ⟨us, last, rfl, hlast, hs, hg, ?_⟩
      rw [Program.faces, Stmt.facesAll_eq_flatMap]
      exact hs.faced fun s _ us h => h.faced
    · cases h
  · intro c e c' htokens h
    exact Parse.expression_faced (by rwa [htokens]) h

theorem spelled_of_parsed_open :
    let p : Program :=
      { statements := [.assign "x" (.newObject "Kutta" [] 1) 1,
          .print [.list [.var "x" 2, .literal .number (.int 1) 2] 2] 2] }
    ∃ ts, tokenize .english "maan x = naya Kutta\nlikho([x, 1,])" = .ok ts ∧
      parseTokens .english ts = .ok p ∧
      ∃ us last, ts = us ++ [last] ∧ last.kind = .eof ∧ Sequence Stmt.Spelled p.statements us ∧
        p.grammatical = true ∧ Variant p.faces (us.map Token.face) := by
  intro p
  let ts : List Token :=
    [⟨.letVar, .str "maan", 1, 1⟩, ⟨.identifier, .str "x", 1, 6⟩, ⟨.assign, .str "=", 1, 8⟩,
     ⟨.new, .str "naya", 1, 10⟩, ⟨.identifier, .str "Kutta", 1, 15⟩, ⟨.print, .str "likho", 2, 1⟩,
     ⟨.lparen, .str "(", 2, 6⟩, ⟨.lbracket, .str "[", 2, 7⟩, ⟨.identifier, .str "x", 2, 8⟩,
     ⟨.comma, .str ",", 2, 9⟩, ⟨.number, .int 1, 2, 11⟩, ⟨.comma, .str ",", 2, 12⟩,
     ⟨.rbracket, .str "]", 2, 13⟩, ⟨.rparen, .str ")", 2, 14⟩, ⟨.eof, .none, 2, 15⟩]
  have hts : tokenize .english "maan x = naya Kutta\nlikho([x, 1,])" = .ok ts := by cbv
  have hp : parseTokens .english ts = .ok p := by cbv
  exact ⟨ts, hts, hp, (spelled_of_parsed .english _ ts (.inl hts)).1 p hp⟩

end Bhasha
