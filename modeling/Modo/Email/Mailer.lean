import Modo.Email.Frontmatter

/-!
# Rendering an email

`render` puts the values of the variables into the template and, once the body is HTML, into
the layout; the body and the two sections of the layout are variables of it themselves.

What is put in is not read again: each substitution depends on the placeholders of the text it
is given (`substitute_congr`), and these are the template, the sections and the layout, never a
text that holds a value.  So the mail depends on no other variables
(`render_eq_of_agree`).

The source of the templates, YAML, Markdown and the inlining of CSS are parameters.
-/

namespace Modo.Email

/-! ## Placeholders -/

/-- A name of a variable. -/
def IsName (name : List Char) : Prop :=
  name.head?.any isNameStart = true ∧ ∀ c ∈ name, isNameChar c = true

/-- `{{name}}`. -/
def placeholder (name : List Char) : List Char := '{' :: '{' :: (name ++ ['}', '}'])

/-- A placeholder of this name occurs in the text. -/
def Occurs (name text : List Char) : Prop := IsName name ∧ placeholder name <:+: text

/-- The names of the placeholders of a text. -/
def names : List Char → List (List Char)
  | [] => []
  | c :: rest =>
      match matchVar (c :: rest) with
      | some name => name :: names rest
      | none => names rest

theorem matchVar_eq_some {text name : List Char} (hmatch : matchVar text = some name) :
    IsName name ∧ placeholder name <+: text := by
  unfold matchVar at hmatch
  split at hmatch
  · rename_i rest
    dsimp only at hmatch
    split at hmatch
    · rename_i hname
      obtain rfl := Option.some.inj hmatch
      refine ⟨⟨hname.1, fun c hc => List.mem_takeWhile_imp hc⟩, ?_⟩
      rw [placeholder, List.cons_prefix_cons, List.cons_prefix_cons]
      refine ⟨rfl, rfl, ?_⟩
      conv_rhs => rw [← @List.takeWhile_append_dropWhile _ isNameChar rest]
      exact (List.prefix_append_right_inj _).mpr (List.isPrefixOf_iff_prefix.mp hname.2)
    · cases hmatch
  · cases hmatch

theorem occurs_of_mem_names {name text : List Char} (hname : name ∈ names text) :
    Occurs name text := by
  induction text with
  | nil => cases hname
  | cons c rest ih =>
      have hrest (hmem : name ∈ names rest) : Occurs name (c :: rest) :=
        ⟨(ih hmem).1, (ih hmem).2.trans (List.suffix_cons c rest).isInfix⟩
      rw [names] at hname
      cases hmatch : matchVar (c :: rest) with
      | none =>
          rw [hmatch] at hname
          exact hrest hname
      | some found =>
          rw [hmatch] at hname
          rcases List.mem_cons.mp hname with rfl | hname
          · have hfound := matchVar_eq_some hmatch
            exact ⟨hfound.1, hfound.2.isInfix⟩
          · exact hrest hname

theorem names_subset_cons (c : Char) (rest : List Char) : names rest ⊆ names (c :: rest) := by
  intro name hname
  rw [names]
  split
  · exact List.mem_cons_of_mem _ hname
  · exact hname

section Congr

variable {vars vars' : List Char → Option (List Char)}

theorem substituteFrom_congr {text : List Char}
    (hvars : ∀ name ∈ names text, vars name = vars' name) (skip : ℕ) :
    substituteFrom vars skip text = substituteFrom vars' skip text := by
  induction text generalizing skip with
  | nil => cases skip <;> rfl
  | cons c rest ih =>
      have hrest := ih fun name hname => hvars name (names_subset_cons c rest hname)
      cases skip with
      | succ skip => exact hrest skip
      | zero =>
          rw [substituteFrom, substituteFrom]
          cases hmatch : matchVar (c :: rest) with
          | none => exact congrArg (c :: ·) (hrest 0)
          | some name =>
              have hname : name ∈ names (c :: rest) := by
                rw [names, hmatch]
                exact List.mem_cons_self
              dsimp only
              rw [hvars name hname, hrest]

/-- **A substitution depends on the placeholders of its text.** -/
theorem substitute_congr {text : List Char}
    (hvars : ∀ name, Occurs name text → vars name = vars' name) :
    substitute vars text = substitute vars' text :=
  substituteFrom_congr (fun name hname => hvars name (occurs_of_mem_names hname)) 0

end Congr

/-! ## Layouts -/

/-- The lines of `BASE_LAYOUT`. -/
def baseLayoutLines : List String :=
  [ "<!DOCTYPE html PUBLIC \"-//W3C//DTD XHTML 1.0 Transitional//EN\" \"http://www.w3.org/TR/" ++
      "xhtml1/DTD/xhtml1-transitional.dtd\">",
    "<html xmlns=\"http://www.w3.org/1999/xhtml\" lang=\"en\">",
    "<head>",
    "<meta http-equiv=\"Content-Type\" content=\"text/html; charset=UTF-8\" />",
    "<meta name=\"viewport\" content=\"width=device-width, initial-scale=1.0\" />",
    "<meta http-equiv=\"X-UA-Compatible\" content=\"IE=edge\" />",
    "<meta name=\"color-scheme\" content=\"light dark\" />",
    "<meta name=\"supported-color-schemes\" content=\"light dark\" />",
    "<style type=\"text/css\">",
    "body, table, td, a \x7b -webkit-text-size-adjust: 100%; -ms-text-size-adjust: 100%; \x7d",
    "table, td \x7b mso-table-lspace: 0pt; mso-table-rspace: 0pt; \x7d",
    "img \x7b -ms-interpolation-mode: bicubic; max-width: 100%; \x7d",
    "body \x7b margin: 0 !important; padding: 0 !important; width: 100% !important; \x7d",
    "@media (prefers-color-scheme: dark) \x7b",
    "  .email-body \x7b background-color: #1a1a1a !important; \x7d",
    "  .email-card \x7b background-color: #1a1a1a !important; \x7d",
    "  .email-content, .email-content * \x7b color: #e4e4e7 !important; \x7d",
    "  .email-footer \x7b color: #a1a1aa !important; \x7d",
    "  .email-divider \x7b border-color: #3f3f46 !important; \x7d",
    "  .email-otp-bg \x7b background-color: #27272a !important; color: #e4e4e7 !important; " ++
      "\x7d",
    "\x7d",
    "@media only screen and (max-width: 620px) \x7b",
    "  .email-outer \x7b padding: 16px 8px !important; \x7d",
    "  .email-card \x7b padding: 24px 16px !important; \x7d",
    "\x7d",
    "</style>",
    "</head>",
    "<body class=\"email-body\" style=\"margin:0;padding:0;width:100%;background-color:#fffff" ++
      "f;-webkit-font-smoothing:antialiased;\">",
    "<table role=\"presentation\" border=\"0\" cellpadding=\"0\" cellspacing=\"0\" width=\"10" ++
      "0%\" class=\"email-body\" style=\"background-color:#ffffff;\">",
    "<tr>",
    "<td class=\"email-outer\" align=\"center\" style=\"padding:24px 16px;\">",
    "<!--[if mso]><table role=\"presentation\" width=\"600\" cellpadding=\"0\" cellspacing=\"" ++
      "0\"><tr><td><![endif]-->",
    "<table role=\"presentation\" border=\"0\" cellpadding=\"0\" cellspacing=\"0\" width=\"10" ++
      "0%\" style=\"width:100%;max-width:600px;\">",
    "<tr>",
    "<td class=\"email-card email-content\" style=\"background-color:#ffffff;padding:32px;fon" ++
      "t-family:-apple-system,BlinkMacSystemFont,'Segoe UI',Roboto,Helvetica,Arial,sans-serif;f" ++
      "ont-size:16px;line-height:1.6;color:#18181b;\">",
    "<table role=\"presentation\" border=\"0\" cellpadding=\"0\" cellspacing=\"0\" width=\"10" ++
      "0%\">",
    "\x7b\x7blogo_section\x7d\x7d",
    "<tr><td>\x7b\x7bcontent\x7d\x7d</td></tr>",
    "\x7b\x7bfooter_section\x7d\x7d",
    "</table>",
    "</td>",
    "</tr>",
    "</table>",
    "<!--[if mso]></td></tr></table><![endif]-->",
    "</td>",
    "</tr>",
    "</table>",
    "</body>",
    "</html>"]

/-- `BASE_LAYOUT`. -/
def baseLayout : List Char := ['\n'].intercalate (baseLayoutLines.map String.toList)

/-- `LOGO_SECTION_BARE`. -/
def logoSectionBare : List Char :=
  ("<tr><td align=\"left\" style=\"padding-bottom:24px;\"><img src=\"\x7b\x7blogo_url\x7d\x7d\" " ++
    "alt=\"\" style=\"max-width:96px;max-height:48px;height:auto;width:auto;display:block;" ++
    "border:0;\" /></td></tr>").toList

/-- `LOGO_SECTION_LINKED`. -/
def logoSectionLinked : List Char :=
  ("<tr><td align=\"left\" style=\"padding-bottom:24px;\"><a href=\"\x7b\x7bapp_url\x7d\x7d\" " ++
    "style=\"text-decoration:none;border:0;\"><img src=\"\x7b\x7blogo_url\x7d\x7d\" alt=\"\" " ++
    "style=\"max-width:96px;max-height:48px;height:auto;width:auto;display:block;border:0;\" " ++
    "/></a></td></tr>").toList

/-- `FOOTER_SECTION`. -/
def footerSection : List Char :=
  ("<tr><td style=\"padding-top:40px;font-size:0;line-height:0;\">&nbsp;</td></tr><tr><td " ++
    "class=\"email-footer email-divider\" align=\"left\" style=\"border-top:1px solid #e4e4e7;" ++
    "padding-top:8px;font-family:-apple-system,BlinkMacSystemFont,'Segoe UI',Roboto,Helvetica," ++
    "Arial,sans-serif;font-size:13px;color:#71717a;\">\x7b\x7bfooter_text\x7d\x7d</td></tr>").toList

/-- `HashMap<String, String>`. -/
abbrev Vars := List Char → Option (List Char)

/-- The section of the logo, empty without one. -/
def logoSection (vars : Vars) : List Char :=
  if (vars "logo_url".toList).isSome then
    substitute vars (if (vars "app_url".toList).isSome then logoSectionLinked else logoSectionBare)
  else []

/-- The section of the footer, empty without a text. -/
def footerSectionOf (vars : Vars) : List Char :=
  if (vars "footer_text".toList).isSome then substitute vars footerSection else []

/-- The variables with those that a layout has besides. -/
def fullVars (content : List Char) (vars : Vars) : Vars :=
  Function.update (Function.update (Function.update vars "content".toList (some content))
    "logo_section".toList (some (logoSection vars)))
    "footer_section".toList (some (footerSectionOf vars))

/-- `apply_layout`. -/
def applyLayout (layoutHtml content : List Char) (vars : Vars) : List Char :=
  substitute (fullVars content vars) layoutHtml

/-- `resolve_layout`. -/
def resolveLayout (name : List Char) (customLayouts : Vars) :
    Except (ℕ × String) (List Char) :=
  if name = "base".toList then .ok baseLayout
  else
    match customLayouts name with
    | some layout => .ok layout
    | none => .error (404, "email layout '" ++ String.ofList name ++ "' not found")

/-! ## The mailer -/

/-- What `render` calls besides. -/
structure Renderers where
  /-- `serde_yaml_ng::from_str`. -/
  fromYaml : List Char → Except String Frontmatter
  /-- `markdown_to_html`, with the brand colour. -/
  markdownToHtml : List Char → Option (List Char) → List Char
  markdownToText : List Char → List Char
  inlineCssPass : List Char → Except (ℕ × String) (List Char)

/-- `Mailer`, as far as it renders. -/
structure Mailer where
  /-- `TemplateSource::load`, of a name, a locale and the default locale. -/
  load : List Char → List Char → List Char → Except (ℕ × String) (List Char)
  defaultLocale : List Char
  inlineCss : Bool
  layouts : Vars

/-- `SendEmail`, as far as it is rendered. -/
structure SendEmail where
  template : List Char
  locale : Option (List Char)
  vars : Vars

structure RenderedEmail where
  subject : List Char
  html : List Char
  text : List Char
  deriving DecidableEq

namespace Mailer

variable (renderers : Renderers) (mailer : Mailer) (email : SendEmail)

/-- The raw template. -/
def raw : Except (ℕ × String) (List Char) :=
  mailer.load email.template (email.locale.getD mailer.defaultLocale) mailer.defaultLocale

/-- `Mailer::render`, from the substituted template on. -/
def renderSubstituted (vars : Vars) (substituted : List Char) :
    Except (ℕ × String) RenderedEmail := do
  let (frontmatter, body) ← parseFrontmatter renderers.fromYaml substituted
  let htmlBody := renderers.markdownToHtml body (vars "brand_color".toList)
  let layoutHtml ← resolveLayout frontmatter.layout mailer.layouts
  let applied := applyLayout layoutHtml htmlBody vars
  let html ← if mailer.inlineCss then renderers.inlineCssPass applied else .ok applied
  .ok { subject := frontmatter.subject, html := html, text := renderers.markdownToText body }

/-- `Mailer::render`. -/
def render : Except (ℕ × String) RenderedEmail := do
  let raw ← mailer.raw email
  mailer.renderSubstituted renderers email.vars (substitute email.vars raw)

/-- The layout that `render` comes to. -/
def usedLayout : Except (ℕ × String) (List Char) := do
  let raw ← mailer.raw email
  let (frontmatter, _) ← parseFrontmatter renderers.fromYaml (substitute email.vars raw)
  resolveLayout frontmatter.layout mailer.layouts

end Mailer

/-! ## What a mail depends on -/

/-- The variables that `render` reads by name. -/
def readNames : List (List Char) :=
  ["brand_color".toList, "logo_url".toList, "app_url".toList, "footer_text".toList]

/-! The kernel reads a list of characters much faster than the parts of a text. -/

theorem names_logoSectionBare : names logoSectionBare = ["logo_url".toList] := by
  delta logoSectionBare
  simp only [String.toList_append, -String.reduceToList]
  repeat rw [String.toList_ofList]
  decide +kernel

theorem names_logoSectionLinked :
    names logoSectionLinked = ["app_url".toList, "logo_url".toList] := by
  delta logoSectionLinked
  simp only [String.toList_append, -String.reduceToList]
  repeat rw [String.toList_ofList]
  decide

theorem names_footerSection : names footerSection = ["footer_text".toList] := by
  delta footerSection
  simp only [String.toList_append, -String.reduceToList]
  repeat rw [String.toList_ofList]
  decide

theorem ok_bind {ε α β : Type} (a : α) (f : α → Except ε β) : (Except.ok a >>= f) = f a := rfl

theorem error_bind {ε α β : Type} (e : ε) (f : α → Except ε β) :
    (Except.error e >>= f) = .error e := rfl

section Agree

variable {vars vars' : Vars} (hnamed : ∀ name ∈ readNames, vars name = vars' name)

include hnamed

theorem logoSection_congr : logoSection vars = logoSection vars' := by
  have hlogo := hnamed "logo_url".toList (by simp [readNames])
  have happ := hnamed "app_url".toList (by simp [readNames])
  rw [logoSection, logoSection, hlogo, happ]
  split
  · split
    · refine substituteFrom_congr ?_ 0
      rw [names_logoSectionLinked]
      exact List.forall_mem_cons.mpr ⟨happ, List.forall_mem_singleton.mpr hlogo⟩
    · refine substituteFrom_congr ?_ 0
      rw [names_logoSectionBare]
      exact List.forall_mem_singleton.mpr hlogo
  · rfl

theorem footerSectionOf_congr : footerSectionOf vars = footerSectionOf vars' := by
  have hfooter := hnamed "footer_text".toList (by simp [readNames])
  rw [footerSectionOf, footerSectionOf, hfooter]
  split
  · refine substituteFrom_congr ?_ 0
    rw [names_footerSection]
    exact List.forall_mem_singleton.mpr hfooter
  · rfl

/-- A layout depends on its placeholders and on the sections. -/
theorem applyLayout_congr {layoutHtml : List Char}
    (hlayout : ∀ name, Occurs name layoutHtml → vars name = vars' name) (content : List Char) :
    applyLayout layoutHtml content vars = applyLayout layoutHtml content vars' := by
  apply substitute_congr
  intro name hname
  rw [fullVars, fullVars, logoSection_congr hnamed, footerSectionOf_congr hnamed]
  simp only [Function.update_apply]
  rw [hlayout name hname]

end Agree

/-- **Variables are expanded once.**  Two maps that agree on the placeholders of the raw
template and of the layout that is used, and on the variables that are read by name, give the
same mail. -/
theorem render_eq_of_agree (renderers : Renderers) (mailer : Mailer) (email : SendEmail)
    (vars' : Vars)
    (hraw : ∀ raw, mailer.raw email = .ok raw →
      ∀ name, Occurs name raw → email.vars name = vars' name)
    (hlayout : ∀ layout, mailer.usedLayout renderers email = .ok layout →
      ∀ name, Occurs name layout → email.vars name = vars' name)
    (hnamed : ∀ name ∈ readNames, email.vars name = vars' name) :
    mailer.render renderers email = mailer.render renderers { email with vars := vars' } := by
  have hsource : mailer.raw { email with vars := vars' } = mailer.raw email := rfl
  rw [Mailer.render, Mailer.render, hsource]
  unfold Mailer.usedLayout at hlayout
  cases hload : mailer.raw email with
  | error response => rw [error_bind, error_bind]
  | ok raw =>
      rw [hload] at hlayout
      rw [ok_bind] at hlayout
      rw [ok_bind, ok_bind, ← substitute_congr (hraw raw hload), Mailer.renderSubstituted,
        Mailer.renderSubstituted]
      cases hparse : parseFrontmatter renderers.fromYaml (substitute email.vars raw) with
      | error response => rw [error_bind, error_bind]
      | ok parts =>
          obtain ⟨frontmatter, body⟩ := parts
          rw [hparse] at hlayout
          simp only [ok_bind] at hlayout ⊢
          cases hresolve : resolveLayout frontmatter.layout mailer.layouts with
          | error response => rw [error_bind, error_bind]
          | ok layoutHtml =>
              have hbrand := hnamed "brand_color".toList List.mem_cons_self
              simp only [ok_bind]
              rw [hbrand, applyLayout_congr hnamed (hlayout layoutHtml hresolve)]

/-! ## A mail -/

def dearTemplate : List Char :=
  "---\nsubject: Hi\nlayout: plain\n---\nDear \x7b\x7bname\x7d\x7d".toList

def plainLayout : List Char := "\x7b\x7bcontent\x7d\x7d (\x7b\x7bname\x7d\x7d)".toList

def greetingMailer : Mailer where
  load _ _ _ := .ok dearTemplate
  defaultLocale := "en".toList
  inlineCss := false
  layouts name := if name = "plain".toList then some plainLayout else none

/-- YAML on the frontmatter of the template; Markdown without any markup. -/
def plainRenderers : Renderers where
  fromYaml yaml :=
    if yaml = "subject: Hi\nlayout: plain".toList then
      .ok { subject := "Hi".toList, layout := "plain".toList }
    else .error "unexpected"
  markdownToHtml body _ := body
  markdownToText body := body
  inlineCssPass html := .ok html

/-- A user whose name is a placeholder. -/
def greetingVars (secret : Option (List Char)) : Vars := fun name =>
  if name = "name".toList then some "\x7b\x7bsecret\x7d\x7d".toList
  else if name = "secret".toList then secret
  else none

def greetingTo (secret : Option (List Char)) : SendEmail where
  template := "greeting".toList
  locale := none
  vars := greetingVars secret

theorem greetingVars_congr {name : List Char} (hname : name ≠ "secret".toList)
    (secret secret' : Option (List Char)) :
    greetingVars secret name = greetingVars secret' name := by
  rw [greetingVars, greetingVars, if_neg hname, if_neg hname]

/-- The name is written as it is, whether there is a secret or not. -/
theorem greeting_keeps_secret :
    greetingMailer.render plainRenderers (greetingTo (some "s3cret".toList)) =
      greetingMailer.render plainRenderers (greetingTo none) ∧
    greetingMailer.render plainRenderers (greetingTo none) =
      .ok { subject := "Hi".toList,
            html := "Dear \x7b\x7bsecret\x7d\x7d (\x7b\x7bsecret\x7d\x7d)".toList,
            text := "Dear \x7b\x7bsecret\x7d\x7d".toList } := by
  refine ⟨render_eq_of_agree plainRenderers greetingMailer (greetingTo (some "s3cret".toList))
    (greetingVars none) ?_ ?_ ?_, by decide +kernel⟩
  · intro raw hraw name hname
    refine greetingVars_congr ?_ _ _
    rintro rfl
    cases hraw
    exact absurd hname.2 (by decide +kernel)
  · intro layout hlayout name hname
    have hused : greetingMailer.usedLayout plainRenderers (greetingTo (some "s3cret".toList)) =
        .ok plainLayout := by
      decide
    refine greetingVars_congr ?_ _ _
    rintro rfl
    rw [hused] at hlayout
    cases hlayout
    exact absurd hname.2 (by decide +kernel)
  · intro name hname
    refine greetingVars_congr ?_ _ _
    rintro rfl
    exact absurd hname (by decide +kernel)

end Modo.Email
